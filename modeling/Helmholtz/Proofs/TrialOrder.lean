import Helmholtz.Proofs.AcceptedRecords

/-! A factor is tried as a number, as a group and as a node, and an argument as a group and as a
node; the first trial that succeeds gives the record. No value is two of these, so the order of the
trials makes no difference, even if every place of a value has its own. -/

namespace Helmholtz
namespace ExprRecord

/-- The alternatives of a factor. -/
inductive FactorAlternative where
  | constant
  | group
  | node

/-- The alternatives of an argument. -/
inductive ArgumentAlternative where
  | group
  | node

def FactorAlternative.all : List FactorAlternative := [constant, group, node]

def ArgumentAlternative.all : List ArgumentAlternative := [group, node]

/-- What the alternative reads, of a value whose readings as a group and as a node are given. -/
def FactorAlternative.read (v : Json) (group node : Option ExprRecord) :
    FactorAlternative → Option FactorRecord
  | .constant => v.float?.map .constant
  | .group => group.map .expr
  | .node => node.map .expr

/-- What the alternative reads, of a value whose readings as a group and as a node are given. -/
def ArgumentAlternative.read (group node : Option ExprRecord) :
    ArgumentAlternative → Option ExprRecord
  | .group => group
  | .node => node

def FactorAlternative.ofJson? (v : Json) : FactorAlternative → Option FactorRecord :=
  read v (groupOfJson? v) (nodeOfJson? v)

def ArgumentAlternative.ofJson? (v : Json) : ArgumentAlternative → Option ExprRecord :=
  read (groupOfJson? v) (nodeOfJson? v)

/-- An order in which to try all of the alternatives. -/
structure TrialOrder {α : Type} (all : List α) where
  trials : List α
  perm : trials.Perm all

/-- The first success. -/
def TrialOrder.first? {α β : Type} {all : List α} (order : TrialOrder all) (read : α → Option β) :
    Option β :=
  order.trials.findSome? read

/-- An order for every place of a value; the place is the list of the positions that lead to it. -/
structure Trials where
  factor : List ℕ → TrialOrder FactorAlternative.all
  argument : List ℕ → TrialOrder ArgumentAlternative.all

namespace Trials

/-- The orders for the places of the value at a position. -/
def inside (s : Trials) (i : ℕ) : Trials where
  factor place := s.factor (i :: place)
  argument place := s.argument (i :: place)

/-- The factor, of what the value is read as. -/
def factor? (s : Trials) (v : Json) (group node : Option ExprRecord) : Option FactorRecord :=
  (s.factor []).first? (FactorAlternative.read v group node)

/-- The argument, of what the value is read as. -/
def argument? (s : Trials) (group node : Option ExprRecord) : Option ExprRecord :=
  (s.argument []).first? (ArgumentAlternative.read group node)

end Trials

/-- What a member gives to a field that no member has given anything to. -/
def fill? {β : Type} (before given : Option β) : Option β :=
  match before with
  | none => given
  | some _ => none

/-- The draft after one more member, which gives `g` if it is an argument. -/
def Draft.take? (d : Draft) (key : String) (v : Json) (g : Option (Option ExprRecord)) :
    Option Draft :=
  match key with
  | "type" => (fill? d.tag v.string?).map fun tag => { d with tag := some tag }
  | "param" => (fill? d.param (some (parameter v))).map fun p => { d with param := some p }
  | "arg" => (fill? d.arg g).map fun g => { d with arg := some g }
  | "argx" => (fill? d.argx g).map fun g => { d with argx := some g }
  | "argy" => (fill? d.argy g).map fun g => { d with argy := some g }
  | _ => none

mutual

/-- A group, with the factors and arguments in it tried in the given orders. -/
def groupInOrder? (s : Trials) : Json → Option ExprRecord
  | .array items => (termsInOrder? s 0 items).map group
  | _ => none

/-- A node, with the factors and arguments in it tried in the given orders. -/
def nodeInOrder? (s : Trials) : Json → Option ExprRecord
  | .array items => itemsInOrder? s items
  | .object members => membersInOrder? s 0 members {}
  | _ => none

def itemsInOrder? (s : Trials) : List Json → Option ExprRecord
  | [.string tag, param, arg, argx, argy] => do
    let g ← nullable arg <| (s.inside 2).argument? (groupInOrder? (s.inside 2) arg)
      (nodeInOrder? (s.inside 2) arg)
    let gx ← nullable argx <| (s.inside 3).argument? (groupInOrder? (s.inside 3) argx)
      (nodeInOrder? (s.inside 3) argx)
    let gy ← nullable argy <| (s.inside 4).argument? (groupInOrder? (s.inside 4) argy)
      (nodeInOrder? (s.inside 4) argy)
    some (.node tag (parameter param) g gx gy)
  | _ => none

def membersInOrder? (s : Trials) (i : ℕ) : List (String × Json) → Draft → Option ExprRecord
  | [], d => d.node?
  | (key, v) :: rest, d => do
    let g := nullable v <| (s.inside i).argument? (groupInOrder? (s.inside i) v)
      (nodeInOrder? (s.inside i) v)
    let d ← d.take? key v g
    membersInOrder? s (i + 1) rest d

def termsInOrder? (s : Trials) (i : ℕ) : List Json → Option (List (List FactorRecord))
  | [] => some []
  | .array items :: rest => do
    let factors ← factorsInOrder? (s.inside i) 0 items
    let terms ← termsInOrder? s (i + 1) rest
    some (factors :: terms)
  | _ :: _ => none

def factorsInOrder? (s : Trials) (i : ℕ) : List Json → Option (List FactorRecord)
  | [] => some []
  | v :: rest => do
    let factor ← (s.inside i).factor? v (groupInOrder? (s.inside i) v) (nodeInOrder? (s.inside i) v)
    let factors ← factorsInOrder? s (i + 1) rest
    some (factor :: factors)

end

/-- A factor, tried in the given orders. -/
def factorInOrder? (s : Trials) (v : Json) : Option FactorRecord :=
  s.factor? v (groupInOrder? s v) (nodeInOrder? s v)

/-- An argument, tried in the given orders. -/
def argumentInOrder? (s : Trials) (v : Json) : Option ExprRecord :=
  s.argument? (groupInOrder? s v) (nodeInOrder? s v)

section Exclusion

/-- A group is an array of arrays, and the array form of a node begins with a string. -/
theorem IsGroup.not_isNode {v : Json} (h : IsGroup v) : ¬ IsNode v := by
  intro hnode
  cases hnode with
  | members hdistinct hknown htag hargs => cases h
  | @items tag param arg argx argy harg hargx hargy =>
    generalize hv : Json.array [.string tag, param, arg, argx, argy] = v at h
    cases h with
    | @array terms h =>
      cases terms with
      | nil => cases hv
      | cons factors rest => cases hv

/-- The values that the alternative reads. -/
def FactorAlternative.Accepts (v : Json) : FactorAlternative → Prop
  | .constant => ∃ n, v = .number n
  | .group => IsGroup v
  | .node => IsNode v

/-- The values that the alternative reads. -/
def ArgumentAlternative.Accepts (v : Json) : ArgumentAlternative → Prop
  | .group => IsGroup v
  | .node => IsNode v

theorem FactorAlternative.ofJson?_isSome_iff (v : Json) (a : FactorAlternative) :
    (a.ofJson? v).isSome ↔ a.Accepts v := by
  cases a with
  | constant =>
    have hfloat : v.float?.isSome ↔ ∃ n, v = .number n := by cases v <;> simp [Json.float?]
    unfold ofJson? read
    rw [Option.isSome_map]
    exact hfloat
  | group =>
    unfold ofJson? read
    rw [Option.isSome_map]
    exact groupOfJson?_isSome_iff v
  | node =>
    unfold ofJson? read
    rw [Option.isSome_map]
    exact nodeOfJson?_isSome_iff v

theorem ArgumentAlternative.ofJson?_isSome_iff (v : Json) (a : ArgumentAlternative) :
    (a.ofJson? v).isSome ↔ a.Accepts v := by
  cases a with
  | group => exact groupOfJson?_isSome_iff v
  | node => exact nodeOfJson?_isSome_iff v

/-- No value is read by two alternatives of a factor. -/
theorem FactorAlternative.eq_of_isSome {v : Json} (a b : FactorAlternative)
    (ha : (a.ofJson? v).isSome) (hb : (b.ofJson? v).isSome) : a = b := by
  rw [FactorAlternative.ofJson?_isSome_iff] at ha hb
  cases a with
  | constant =>
    obtain ⟨n, rfl⟩ := ha
    cases b with
    | constant => rfl
    | group => cases hb
    | node => cases hb
  | group =>
    cases b with
    | constant => obtain ⟨n, rfl⟩ := hb; cases ha
    | group => rfl
    | node => exact absurd hb ha.not_isNode
  | node =>
    cases b with
    | constant => obtain ⟨n, rfl⟩ := hb; cases ha
    | group => exact absurd ha hb.not_isNode
    | node => rfl

/-- No value is read by two alternatives of an argument. -/
theorem ArgumentAlternative.eq_of_isSome {v : Json} (a b : ArgumentAlternative)
    (ha : (a.ofJson? v).isSome) (hb : (b.ofJson? v).isSome) : a = b := by
  rw [ArgumentAlternative.ofJson?_isSome_iff] at ha hb
  cases a with
  | group =>
    cases b with
    | group => rfl
    | node => exact absurd hb ha.not_isNode
  | node =>
    cases b with
    | group => exact absurd ha hb.not_isNode
    | node => rfl

end Exclusion

section Orders

/-- If at most one alternative succeeds, no order of the trials finds another. -/
theorem findSome?_eq_of_perm {α β : Type} {read : α → Option β}
    (hread : ∀ a b, (read a).isSome → (read b).isSome → a = b) {trials trials' : List α}
    (h : trials.Perm trials') : trials.findSome? read = trials'.findSome? read := by
  induction h with
  | nil => rfl
  | cons a _ ih => rw [List.findSome?_cons, List.findSome?_cons, ih]
  | swap a b rest =>
    simp only [List.findSome?_cons]
    cases ha : read a with
    | none => rfl
    | some x =>
      cases hb : read b with
      | none => rfl
      | some y =>
        -- Both trials succeed only if they are the same trial.
        have heq : a = b := hread a b (by rw [ha]; rfl) (by rw [hb]; rfl)
        rw [← ha, ← hb, heq]
  | trans _ _ ih ih' => exact ih.trans ih'

/-- An array or an object is not a number. -/
theorem factorOfJson?_eq_or (v : Json) :
    FactorRecord.ofJson? v = (v.float?.map .constant).or ((ofJson? v).map .expr) := by
  cases v <;> rfl

/-- An expression is a group, or else a node. -/
theorem ofJson?_eq_or (v : Json) : ofJson? v = (groupOfJson? v).or (nodeOfJson? v) := by
  cases v with
  | array items =>
    rw [ofJson?, groupOfJson?, nodeOfJson?]
    cases termsOfItems? items <;> rfl
  | _ => rfl

theorem findSome?_cons_eq_or {α β : Type} (read : α → Option β) (a : α) (trials : List α) :
    (a :: trials).findSome? read = (read a).or (trials.findSome? read) := by
  rw [List.findSome?_cons]
  cases read a <;> rfl

theorem Trials.argument?_eq (s : Trials) (v : Json) :
    s.argument? (groupOfJson? v) (nodeOfJson? v) = ofJson? v := by
  have hone := ArgumentAlternative.eq_of_isSome (v := v)
  have hperm := findSome?_eq_of_perm hone (s.argument []).perm
  have hfirst : ArgumentAlternative.all.findSome? (ArgumentAlternative.ofJson? v) = ofJson? v := by
    unfold ArgumentAlternative.all
    simp only [findSome?_cons_eq_or, List.findSome?_nil, Option.or_none]
    exact (ofJson?_eq_or v).symm
  exact hperm.trans hfirst

theorem Trials.factor?_eq (s : Trials) (v : Json) :
    s.factor? v (groupOfJson? v) (nodeOfJson? v) = FactorRecord.ofJson? v := by
  have hone := FactorAlternative.eq_of_isSome (v := v)
  have hperm := findSome?_eq_of_perm hone (s.factor []).perm
  have hfirst : FactorAlternative.all.findSome? (FactorAlternative.ofJson? v) =
      FactorRecord.ofJson? v := by
    unfold FactorAlternative.all
    simp only [findSome?_cons_eq_or, List.findSome?_nil, Option.or_none]
    rw [factorOfJson?_eq_or, ofJson?_eq_or, Option.map_or]
    rfl
  exact hperm.trans hfirst

theorem map_fill?_eq_some_iff {β : Type} {before given : Option β} {set : β → Draft} {d : Draft} :
    (fill? before given).map set = some d ↔ before = none ∧ ∃ b, given = some b ∧ set b = d := by
  cases before <;> simp [fill?]

/-- Taking a member computes the relation of the grammar. -/
theorem Draft.take?_eq_some_iff {d d' : Draft} {key : String} {v : Json} :
    d.take? key v (nullable v (ofJson? v)) = some d' ↔ d.Takes (key, v) d' := by
  have hread : ∀ g, nullable v (ofJson? v) = some g ↔ ArgumentReads v g :=
    nullable_eq_some_iff (ofJson?_eq_some_iff v)
  constructor
  · intro h
    unfold Draft.take? at h
    -- The five keys of a node, and any other one.
    split at h
    · obtain ⟨hbefore, s, hs, rfl⟩ := map_fill?_eq_some_iff.mp h
      cases v with
      | string s' =>
        cases hs
        exact .tag _ hbefore
      | _ => cases hs
    · obtain ⟨hbefore, p, hp, rfl⟩ := map_fill?_eq_some_iff.mp h
      cases hp
      exact .param v hbefore
    · obtain ⟨hbefore, g, hg, rfl⟩ := map_fill?_eq_some_iff.mp h
      exact .arg hbefore ((hread g).mp hg)
    · obtain ⟨hbefore, g, hg, rfl⟩ := map_fill?_eq_some_iff.mp h
      exact .argx hbefore ((hread g).mp hg)
    · obtain ⟨hbefore, g, hg, rfl⟩ := map_fill?_eq_some_iff.mp h
      exact .argy hbefore ((hread g).mp hg)
    · cases h
  · intro h
    cases h with
    | tag s hbefore => simp [Draft.take?, fill?, Json.string?, hbefore]
    | param _ hbefore => simp [Draft.take?, fill?, hbefore]
    | arg hbefore hg => simp [Draft.take?, fill?, hbefore, (hread _).mpr hg]
    | argx hbefore hg => simp [Draft.take?, fill?, hbefore, (hread _).mpr hg]
    | argy hbefore hg => simp [Draft.take?, fill?, hbefore, (hread _).mpr hg]

/-- Reading goes on with the draft that has taken the first member. -/
theorem nodeOfMembers?_cons (key : String) (v : Json) (rest : List (String × Json)) (d : Draft) :
    nodeOfMembers? ((key, v) :: rest) d =
      (d.take? key v (nullable v (ofJson? v))).bind (nodeOfMembers? rest) := by
  have hv : Decides (key, v).2 := ofJson?_eq_some_iff v
  apply Option.ext
  intro r
  rw [nodeOfMembers?_cons_eq_some_iff hv, Option.bind_eq_some_iff]
  simp only [Draft.take?_eq_some_iff]

/-- Whatever the orders are, the value is read as the same group and as the same node. -/
def Agrees (v : Json) : Prop :=
  ∀ s : Trials, groupInOrder? s v = groupOfJson? v ∧ nodeInOrder? s v = nodeOfJson? v

theorem argumentInOrder?_eq {v : Json} (hv : Agrees v) (s : Trials) :
    argumentInOrder? s v = ofJson? v := by
  obtain ⟨hgroup, hnode⟩ := hv s
  unfold argumentInOrder?
  rw [hgroup, hnode]
  exact s.argument?_eq v

theorem factorInOrder?_eq {v : Json} (hv : Agrees v) (s : Trials) :
    factorInOrder? s v = FactorRecord.ofJson? v := by
  obtain ⟨hgroup, hnode⟩ := hv s
  unfold factorInOrder?
  rw [hgroup, hnode]
  exact s.factor?_eq v

theorem factorsInOrder?_eq {items : List Json} (hitems : ∀ v ∈ items, Agrees v) (s : Trials)
    (i : ℕ) : factorsInOrder? s i items = factorsOfItems? items := by
  induction items generalizing i with
  | nil => rfl
  | cons v rest ih =>
    obtain ⟨hv, hrest⟩ := List.forall_mem_cons.mp hitems
    have hfactor := factorInOrder?_eq hv (s.inside i)
    unfold factorInOrder? at hfactor
    rw [factorsInOrder?, hfactor, ih hrest, factorsOfItems?_cons]
    simp only [Option.map_eq_bind]
    rfl

theorem termsInOrder?_eq {items : List Json}
    (hitems : ∀ inner, .array inner ∈ items → ∀ v ∈ inner, Agrees v) (s : Trials) (i : ℕ) :
    termsInOrder? s i items = termsOfItems? items := by
  induction items generalizing i with
  | nil => rfl
  | cons v rest ih =>
    have hrest : ∀ inner, .array inner ∈ rest → ∀ v ∈ inner, Agrees v :=
      fun inner h => hitems inner (List.mem_cons_of_mem _ h)
    cases v with
    | array inner =>
      have hinner := factorsInOrder?_eq (hitems inner List.mem_cons_self) (s.inside i) 0
      rw [termsInOrder?, hinner, ih hrest, termsOfItems?]
    | _ => rfl

theorem itemsInOrder?_eq {items : List Json} (hitems : ∀ v ∈ items, Agrees v) (s : Trials) :
    itemsInOrder? s items = nodeOfItems? items := by
  by_cases hform : ∃ tag param arg argx argy, items = [.string tag, param, arg, argx, argy]
  · obtain ⟨tag, param, arg, argx, argy, rfl⟩ := hform
    have harg := argumentInOrder?_eq (hitems arg (by simp)) (s.inside 2)
    have hargx := argumentInOrder?_eq (hitems argx (by simp)) (s.inside 3)
    have hargy := argumentInOrder?_eq (hitems argy (by simp)) (s.inside 4)
    unfold argumentInOrder? at harg hargx hargy
    rw [itemsInOrder?, nodeOfItems?, harg, hargx, hargy]
  · have hother : ∀ tag param arg argx argy, items = [.string tag, param, arg, argx, argy] → False :=
      fun tag param arg argx argy h => hform ⟨tag, param, arg, argx, argy, h⟩
    rw [itemsInOrder?, nodeOfItems?]
    · exact hother
    · exact hother

theorem membersInOrder?_eq {members : List (String × Json)} (hmembers : ∀ m ∈ members, Agrees m.2)
    (s : Trials) (i : ℕ) (d : Draft) :
    membersInOrder? s i members d = nodeOfMembers? members d := by
  induction members generalizing i d with
  | nil => rfl
  | cons m rest ih =>
    obtain ⟨key, v⟩ := m
    obtain ⟨hv, hrest⟩ := List.forall_mem_cons.mp hmembers
    have harg := argumentInOrder?_eq hv (s.inside i)
    unfold argumentInOrder? at harg
    rw [membersInOrder?, harg, nodeOfMembers?_cons]
    simp only [ih hrest]
    rfl

/-- The orders of the trials do not matter, at any depth. -/
theorem agrees (v : Json) : Agrees v := by
  -- On the size of the value, as the factors of a group are not its items but theirs.
  intro s
  cases v with
  | array items =>
    have hitems : ∀ w ∈ items, Agrees w := by
      intro w hw
      have hlt := sizeOf_item_lt hw
      exact agrees w
    have hinner : ∀ inner, .array inner ∈ items → ∀ w ∈ inner, Agrees w := by
      intro inner hinner w hw
      have hlt := sizeOf_inner_lt hinner hw
      exact agrees w
    constructor
    · rw [groupInOrder?, groupOfJson?, termsInOrder?_eq hinner]
    · rw [nodeInOrder?, nodeOfJson?, itemsInOrder?_eq hitems]
  | object members =>
    have hmembers : ∀ m ∈ members, Agrees m.2 := by
      rintro ⟨key, w⟩ hw
      have hlt := sizeOf_member_lt hw
      exact agrees w
    constructor
    · rfl
    · rw [nodeInOrder?, nodeOfJson?, membersInOrder?_eq hmembers]
  | _ => exact ⟨rfl, rfl⟩
termination_by sizeOf v
decreasing_by
  all_goals
    subst_vars
    assumption

end Orders

/-- The value is read by the grammar alone. -/
structure ReadByGrammar (v : Json) : Prop where
  group : (groupOfJson? v).isSome ↔ IsGroup v
  node : (nodeOfJson? v).isSome ↔ IsNode v
  argument : (ofJson? v).isSome ↔ IsGroup v ∨ IsNode v
  factor : (FactorRecord.ofJson? v).isSome ↔ IsFactor v
  /-- At most one alternative of a factor reads the value. -/
  oneFactor : ∀ a b : FactorAlternative, (a.ofJson? v).isSome → (b.ofJson? v).isSome → a = b
  /-- At most one alternative of an argument reads the value. -/
  oneArgument : ∀ a b : ArgumentAlternative, (a.ofJson? v).isSome → (b.ofJson? v).isSome → a = b
  /-- Whatever is tried first, here and at every place in the value, the record is the same. -/
  orders : ∀ s : Trials,
    groupInOrder? s v = groupOfJson? v ∧ nodeInOrder? s v = nodeOfJson? v ∧
      argumentInOrder? s v = ofJson? v ∧ factorInOrder? s v = FactorRecord.ofJson? v
  /-- One object with an unknown key or with a key given twice spoils the value. -/
  keys : ∀ members, StandsIn (.object members) v →
    (¬ (members.map Prod.fst).Nodup ∨ ∃ key ∈ members.map Prod.fst, key ∉ nodeKeys) →
      groupOfJson? v = none ∧ nodeOfJson? v = none ∧ ofJson? v = none ∧
        FactorRecord.ofJson? v = none

/-- What is no part of a record is not read. -/
theorem eq_none_of_not_isPart {v : Json} (h : ¬ IsPart v) :
    groupOfJson? v = none ∧ nodeOfJson? v = none ∧ ofJson? v = none ∧
      FactorRecord.ofJson? v = none := by
  have hfactor : ¬ IsFactor v := fun hv => h (.factor hv)
  have hgroup : ¬ IsGroup v := fun hv => hfactor (.group hv)
  have hnode : ¬ IsNode v := fun hv => hfactor (.node hv)
  have hargument : ¬ (IsGroup v ∨ IsNode v) := not_or.mpr ⟨hgroup, hnode⟩
  rw [← factorOfJson?_isSome_iff, Option.not_isSome_iff_eq_none] at hfactor
  rw [← groupOfJson?_isSome_iff, Option.not_isSome_iff_eq_none] at hgroup
  rw [← nodeOfJson?_isSome_iff, Option.not_isSome_iff_eq_none] at hnode
  rw [← ofJson?_isSome_iff, Option.not_isSome_iff_eq_none] at hargument
  exact ⟨hgroup, hnode, hargument, hfactor⟩

end ExprRecord

open ExprRecord

/-- The values that are read as records are those of the grammar, whatever order the alternatives
are tried in. -/
theorem record_readByGrammar (v : Json) : ReadByGrammar v where
  group := groupOfJson?_isSome_iff v
  node := nodeOfJson?_isSome_iff v
  argument := ofJson?_isSome_iff v
  factor := factorOfJson?_isSome_iff v
  oneFactor := FactorAlternative.eq_of_isSome
  oneArgument := ArgumentAlternative.eq_of_isSome
  orders s := by
    obtain ⟨hgroup, hnode⟩ := agrees v s
    have hargument := argumentInOrder?_eq (agrees v) s
    have hfactor := factorInOrder?_eq (agrees v) s
    exact ⟨hgroup, hnode, hargument, hfactor⟩
  keys members hmembers hkeys := eq_none_of_not_isPart (hmembers.not_isPart hkeys)

/-- The last alternative is tried first, everywhere. -/
def ExprRecord.Trials.reversed : Trials where
  factor _ := ⟨FactorAlternative.all.reverse, List.reverse_perm _⟩
  argument _ := ⟨ArgumentAlternative.all.reverse, List.reverse_perm _⟩

/-- A group of one node, with a misspelled key. -/
def sampleMisspelled : Json :=
  .array [.array [.object [("type", .string "logx"), ("argz", .object [("type", .string "x")])]]]

theorem sampleMisspelled_refused :
    groupOfJson? sampleMisspelled = none ∧ groupInOrder? .reversed sampleMisspelled = none := by
  have hread := record_readByGrammar sampleMisspelled
  have hplace : StandsIn (.object [("type", .string "logx"),
      ("argz", .object [("type", .string "x")])]) sampleMisspelled :=
    .item (i := 0) (by decide) (fun _ _ => Nat.zero_ne_one)
      (.item (i := 0) (by decide) (fun _ _ => Nat.zero_ne_one) .here)
  have hunknown : "argz" ∉ nodeKeys := by decide
  obtain ⟨hnone, -⟩ := hread.keys _ hplace (.inr ⟨"argz", by simp, hunknown⟩)
  obtain ⟨horder, -⟩ := hread.orders .reversed
  exact ⟨hnone, horder.trans hnone⟩

end Helmholtz
