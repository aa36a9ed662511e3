import Helmholtz.Proofs.BlockReading

/-! Which weight each block of a fit gets.

The blocks of a fit are read one after another, and their places in the list are the exponents of
their weights. A block that cannot be read ends the reading, so no place is ever skipped. -/

namespace Helmholtz
universe u v

section Places
variable {β γ : Type v} {R : β → γ → Prop} {bs : List β} {cs : List γ}

theorem exists_getElem?_of_forall₂ (h : List.Forall₂ R bs cs) {i : ℕ} {b : β}
    (hb : bs[i]? = some b) : ∃ c, cs[i]? = some c ∧ R b c := by
  induction h generalizing i with
  | nil => simp at hb
  | cons hfirst hrest ih =>
    cases i with
    | zero =>
      obtain rfl : _ = b := by simpa using hb
      exact ⟨_, rfl, hfirst⟩
    | succ i =>
      rw [List.getElem?_cons_succ] at hb ⊢
      exact ih hb

theorem exists_forall₂_iff : (∃ cs, List.Forall₂ R bs cs) ↔ ∀ b ∈ bs, ∃ c, R b c := by
  induction bs with
  | nil => simp
  | cons b rest ih =>
    rw [List.forall_mem_cons, ← ih]
    constructor
    · rintro ⟨_, h⟩
      obtain ⟨c, cs, hb, hrest, -⟩ := List.forall₂_cons_left_iff.mp h
      exact ⟨⟨c, hb⟩, cs, hrest⟩
    · rintro ⟨⟨c, hb⟩, cs, hrest⟩
      exact ⟨c :: cs, .cons hb hrest⟩

end Places

variable {α : Type u}

theorem WeightedBlock.length_numbered (n : ℕ) (bs : List (Block α)) :
    (numbered n bs).length = bs.length := by
  rw [numbered, List.length_map, List.length_zipIdx]

theorem WeightedBlock.getElem?_numbered (n i : ℕ) (bs : List (Block α)) :
    (numbered n bs)[i]? = bs[i]?.map fun b => ⟨.ofNat (n + i), b⟩ := by
  rw [numbered, List.getElem?_map, List.getElem?_zipIdx, Option.map_map]
  rfl

namespace Residual
variable [Zero α] [One α] [ReadsExponent α]

/-- The first block is the base, the `m`-th block after it the `m`-th weighted block, and its weight
has the exponent `m`, which fits 32 bits with sign as long as there are fewer than `2 ^ 31` blocks.
There are no other weighted blocks, and without any block the base is zero. -/
structure Numbers (blocks : List (List (List α))) (r : Residual α) : Prop where
  noBlocks : blocks = [] → r.base = .zero
  base : ∀ rows, blocks[0]? = some rows → Block.ofRows? rows = .ok r.base
  length : r.weighted.length = blocks.length - 1
  weighted : ∀ (m : ℕ) rows, 1 ≤ m → blocks[m]? = some rows → ∃ w, r.weighted[m - 1]? = some w ∧
    Block.ofRows? rows = .ok w.block ∧ (blocks.length < 2 ^ 31 → w.k.toInt = m)

variable {blocks : List (List (List α))}

theorem ofBlocks?_eq_ok_iff {r : Residual α} : ofBlocks? blocks = .ok r ↔
    ∃ bs, List.Forall₂ (fun rows b => Block.ofRows? rows = .ok b) blocks bs ∧ ofList bs = r := by
  simp only [ofBlocks?_eq, Except.map_eq_ok_iff, mapM_eq_ok_iff]

theorem numbers_ofList {bs : List (Block α)}
    (h : List.Forall₂ (fun rows b => Block.ofRows? rows = .ok b) blocks bs) :
    Numbers blocks (ofList bs) := by
  cases h with
  | nil =>
    refine ⟨fun _ => rfl, nofun, rfl, fun m rows _ hrows => ?_⟩
    simp at hrows
  | @cons rows b rest bs hb hrest =>
    have hlength : (ofList (b :: bs)).weighted.length = rest.length := by
      rw [hrest.length_eq]
      exact WeightedBlock.length_numbered 1 bs
    refine ⟨nofun, ?_, hlength, fun m rows' hm hrows => ?_⟩
    · rintro _ ⟨⟩
      exact hb
    · obtain ⟨i, rfl⟩ : ∃ i, m = i + 1 := ⟨m - 1, by omega⟩
      rw [List.getElem?_cons_succ] at hrows
      obtain ⟨c, hc, hread⟩ := exists_getElem?_of_forall₂ hrest hrows
      have hplace : (ofList (b :: bs)).weighted[i]? = some ⟨.ofNat (1 + i), c⟩ := by
        have hnumbered := WeightedBlock.getElem?_numbered 1 i bs
        rwa [hc] at hnumbered
      refine ⟨⟨.ofNat (1 + i), c⟩, hplace, hread, fun hfew => ?_⟩
      have hi : i < rest.length := (List.getElem?_eq_some_iff.mp hrows).1
      rw [List.length_cons] at hfew
      have hk : (Int32.ofNat (1 + i)).toInt = (1 + i : ℕ) := Int32.toInt_ofNat_of_lt (by omega)
      rw [hk, Nat.add_comm]

theorem exists_ofBlocks?_iff : (∃ r : Residual α, ofBlocks? blocks = .ok r) ↔
    ∀ rows ∈ blocks, ∃ b, Block.ofRows? rows = .ok b := by
  simp only [ofBlocks?_eq_ok_iff, ← exists_forall₂_iff]
  constructor
  · rintro ⟨_, bs, h, -⟩
    exact ⟨bs, h⟩
  · rintro ⟨bs, h⟩
    exact ⟨_, bs, h, rfl⟩

theorem ofBlocks?_eq_error_iff {e : BlockFault α} : ofBlocks? blocks = .error e ↔
    ∃ before rows after, blocks = before ++ rows :: after ∧
      (∀ earlier ∈ before, ∃ b, Block.ofRows? earlier = .ok b) ∧ Block.ofRows? rows = .error e := by
  rw [ofBlocks?_eq, Except.map_eq_error_iff, mapM_eq_error_iff]

end Residual

namespace Fit
variable [Zero α] [One α] [ReadsExponent α] {s : Substance α}

theorem ofSubstance?_eq_ok_iff {m : Fit α} : ofSubstance? s = .ok m ↔
    Residual.ofBlocks? s.record.blocks = .ok m.residual ∧ m.identifier = s.identifier ∧
      m.molarWeight = s.molarWeight ∧ m.tc = s.record.tc ∧ m.dc = s.record.dc ∧
      m.r = s.record.r ∧ m.idealGas = s.record.idealGas := by
  constructor
  · intro h
    obtain ⟨r, hr, rfl⟩ := ofSubstance?_ok h
    exact ⟨hr, rfl, rfl, rfl, rfl, rfl, rfl⟩
  · obtain ⟨identifier, molarWeight, tc, dc, r, idealGas, residual⟩ := m
    rintro ⟨hr, rfl, rfl, rfl, rfl, rfl, rfl⟩
    rw [ofSubstance?, hr]
    rfl

theorem ofSubstance?_eq_error_iff {e : BlockFault α} :
    ofSubstance? s = .error e ↔ Residual.ofBlocks? s.record.blocks = .error e := by
  rw [ofSubstance?, Except.bind_eq_error_iff]
  simp

end Fit

/-- A list of blocks makes a residual exactly if each of its blocks can be read, and then the blocks
are numbered by their places, those without any term included. Otherwise the first block that cannot
be read says why. A fit is built exactly with the residual of its blocks, and has everything else
from the record as it is. -/
theorem fit_numbers_blocks {α : Type u} [Zero α] [One α] [ReadsExponent α] :
    (∀ blocks : List (List (List α)),
      ((∃ r : Residual α, Residual.ofBlocks? blocks = .ok r) ↔
        ∀ rows ∈ blocks, ∃ b, Block.ofRows? rows = .ok b) ∧
      (∀ r, Residual.ofBlocks? blocks = .ok r → r.Numbers blocks) ∧
      ∀ e, Residual.ofBlocks? blocks = .error e ↔
        ∃ before rows after, blocks = before ++ rows :: after ∧
          (∀ earlier ∈ before, ∃ b, Block.ofRows? earlier = .ok b) ∧
          Block.ofRows? rows = .error e) ∧
    (∀ preX preY postX postY : α, Block.ofRows? [[preX, preY], [postX, postY]] =
      .ok ⟨preX, preY, postX, postY, .empty⟩) ∧
    ∀ s : Substance α,
      (∀ m, Fit.ofSubstance? s = .ok m ↔
        Residual.ofBlocks? s.record.blocks = .ok m.residual ∧ m.identifier = s.identifier ∧
          m.molarWeight = s.molarWeight ∧ m.tc = s.record.tc ∧ m.dc = s.record.dc ∧
          m.r = s.record.r ∧ m.idealGas = s.record.idealGas) ∧
      ∀ e, Fit.ofSubstance? s = .error e ↔ Residual.ofBlocks? s.record.blocks = .error e := by
  refine ⟨fun blocks => ⟨Residual.exists_ofBlocks?_iff, fun r hr => ?_,
    fun e => Residual.ofBlocks?_eq_error_iff⟩, fun _ _ _ _ => rfl,
    fun s => ⟨fun m => Fit.ofSubstance?_eq_ok_iff, fun e => Fit.ofSubstance?_eq_error_iff⟩⟩
  obtain ⟨bs, hbs, rfl⟩ := Residual.ofBlocks?_eq_ok_iff.mp hr
  exact Residual.numbers_ofList hbs

/-- Three blocks, the second one without terms. -/
def sampleRows : List (List (List Float)) := [
  [[1, 1], [0, 0], [1, 1, 0.5], [0, 2, -0.2]],
  [[0.5, 1], [0, 1]],
  [[1, 1], [-1, 0], [0, 3, 0.3]]]

theorem sampleRows_numbers : ∃ r w, Residual.ofBlocks? sampleRows = .ok r ∧
    r.weighted.length = 2 ∧ r.weighted[1]? = some w ∧ w.k.toInt = 2 ∧
    Block.ofRows? [[1, 1], [-1, 0], [0, 3, 0.3]] = .ok w.block := by
  have hread : (Residual.ofBlocks? sampleRows).toOption.isSome = true := by decide +kernel
  obtain ⟨r, hr⟩ : ∃ r, Residual.ofBlocks? sampleRows = .ok r := by
    cases h : Residual.ofBlocks? sampleRows with
    | error e =>
      rw [h] at hread
      cases hread
    | ok r => exact ⟨r, rfl⟩
  have hnumbers := (fit_numbers_blocks.1 sampleRows).2.1 r hr
  obtain ⟨w, hw, hblock, hk⟩ := hnumbers.weighted 2 _ (by decide) rfl
  exact ⟨r, w, hr, hnumbers.length, hw, hk (by decide), hblock⟩

end Helmholtz
