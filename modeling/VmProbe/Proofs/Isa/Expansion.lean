/-
VmProbe/Proofs/Isa/Expansion.lean

Which catalog a table stands for.

A table asks for its instructions in an order of its own: a shape without variants for one
instruction under its opcode, any other shape for one under the opcode of each variant
(`expansions`).  One of them is resolvable if each generic number among its parameters gets a type
of its kind (`Expansion.Resolvable`); its operands are then those of its parameters, one after
another (`Expansion.instruction`).

Building inserts one expansion after another.  So it succeeds exactly if all expansions are
resolvable and their opcodes are distinct (`Consistent`), and else it stops at the first expansion
that breaks this (`FirstFault`).  Both are inductions from the end of the list, along which the
catalog that was built holds all expansions so far.

Main statement: `build_exact`.  As it speaks of the expansions as a collection, their order does not
matter for what is built, but only for which fault comes first.

The table `storeAndExit` at the end is small enough to be built by hand.
-/
import Mathlib
import VmProbe.Isa.Catalog

namespace VmProbe.Isa

open Machine (TypeTag)

/-! ### Parameters -/

/-- The parameter gets all that it needs from the type of the variant: a generic number has a type
of its kind. -/
def Param.Fits (variant : Option TypeTag) : Param → Prop
  | .int => ∃ tag, variant = some tag ∧ tag.isFloat = false
  | .float => ∃ tag, variant = some tag ∧ tag.isFloat = true
  | _ => True

/-- The operand of a parameter, if it stands in the code: a type does only if it is encoded. -/
def Param.operand? (encodesType : Bool) (variant : Option TypeTag) : Param → Option Operand
  | .intType => if encodesType then some .intTypeTag else none
  | .floatType => if encodesType then some .floatTypeTag else none
  | .int => variant.map fun tag => .int tag.width
  | .float => variant.map fun tag => .float tag.width
  | .intReg => some .intRegister
  | .floatReg => some .floatRegister
  | .label => some .codeAddress
  | .regOffset => some .registerOffset
  | .sysId => some (.int 1)

/-- Why a parameter that does not fit has no operand. -/
def ParamError.of : Option TypeTag → ParamError
  | none => .unresolved
  | some tag => .mismatch tag

variable {p : Param} {ps : List Param} {encodesType : Bool} {variant : Option TypeTag}

theorem Param.operands_of_fits (h : p.Fits variant) :
    p.operands encodesType variant = .ok (p.operand? encodesType variant).toList := by
  cases p with
  | int =>
    obtain ⟨tag, rfl, htag⟩ := h
    simp [Param.operands, Param.operand?, htag]
  | float =>
    obtain ⟨tag, rfl, htag⟩ := h
    simp [Param.operands, Param.operand?, htag]
  | intType => cases encodesType <;> rfl
  | floatType => cases encodesType <;> rfl
  | _ => rfl

theorem Param.operands_of_not_fits (h : ¬ p.Fits variant) :
    p.operands encodesType variant = .error (ParamError.of variant) := by
  cases p with
  | int =>
    rcases variant with - | tag
    · rfl
    · have htag : tag.isFloat = true := by simpa [Param.Fits] using h
      rw [Param.operands, if_pos htag, ParamError.of]
  | float =>
    rcases variant with - | tag
    · rfl
    · have htag : tag.isFloat = false := by simpa [Param.Fits] using h
      rw [Param.operands, if_neg (by simp [htag]), ParamError.of]
  | _ => exact absurd trivial h

theorem Param.allOperands_of_fits (h : ∀ p ∈ ps, p.Fits variant) :
    Param.allOperands encodesType variant ps =
      .ok (ps.filterMap (Param.operand? encodesType variant)) := by
  induction ps with
  | nil => rfl
  | cons p ps ih =>
    obtain ⟨hp, hps⟩ := List.forall_mem_cons.1 h
    rw [Param.allOperands, Param.operands_of_fits hp, ih hps, List.filterMap_cons]
    rcases p.operand? encodesType variant with - | o <;> rfl

/-- One parameter that does not fit is enough, wherever it stands. -/
theorem Param.allOperands_of_not_fits (hp : p ∈ ps) (h : ¬ p.Fits variant) :
    Param.allOperands encodesType variant ps = .error (ParamError.of variant) := by
  induction ps with
  | nil => cases hp
  | cons q qs ih =>
    by_cases hq : q.Fits variant
    · have hlater : p ∈ qs := by
        rcases List.mem_cons.1 hp with rfl | hlater
        · exact absurd hq h
        · exact hlater
      rw [Param.allOperands, Param.operands_of_fits hq, ih hlater]
    · rw [Param.allOperands, Param.operands_of_not_fits hq]

/-! ### Expansions -/

/-- One instruction that a table asks for. -/
structure Expansion where
  mnemonic : String
  encodesType : Bool
  params : List Param
  opcode : UInt8
  variant : Option TypeTag

namespace Expansion

variable {x : Expansion}

/-- All parameters get what they need. -/
def Resolvable (x : Expansion) : Prop := ∀ p ∈ x.params, p.Fits x.variant

/-- The instruction, with the operands of the parameters in their order. -/
def instruction (x : Expansion) : Instruction where
  opcode := x.opcode
  mnemonic := x.mnemonic
  operands := x.params.filterMap (Param.operand? x.encodesType x.variant)
  suffix := x.variant

/-- The error, if a parameter does not get what it needs. -/
def fault (x : Expansion) : CatalogError :=
  match x.variant with
  | none => .unresolvedGeneric x.mnemonic x.opcode
  | some tag => .variantMismatch x.mnemonic x.opcode tag

/-- What the shape of the expansion is expanded to. -/
def outcome (x : Expansion) : Except CatalogError Instruction :=
  (Shape.plain x.opcode x.encodesType x.params).expand x.mnemonic x.opcode x.variant

theorem outcome_of_resolvable (h : x.Resolvable) : x.outcome = .ok x.instruction := by
  have hall : Param.allOperands x.encodesType x.variant x.params =
      .ok x.instruction.operands := Param.allOperands_of_fits h
  rw [outcome, Shape.expand, Shape.plain]
  simp only [hall]
  rfl

theorem outcome_of_not_resolvable (h : ¬ x.Resolvable) : x.outcome = .error x.fault := by
  obtain ⟨p, hp, hfits⟩ : ∃ p ∈ x.params, ¬ p.Fits x.variant := by simpa [Resolvable] using h
  have hall : Param.allOperands x.encodesType x.variant x.params =
      .error (ParamError.of x.variant) := Param.allOperands_of_not_fits hp hfits
  rw [outcome, Shape.expand, Shape.plain]
  simp only [hall, fault]
  rcases x.variant with - | tag <;> rfl

end Expansion

/-- The expansion of a shape for one of its variants. -/
def Shape.typed (mnemonic : String) (s : Shape) (v : Variant) : Expansion :=
  ⟨mnemonic, s.encodesType, s.params, v.opcode, some v.tag⟩

/-- The expansions of a shape: one for itself, or one for each variant. -/
def Shape.asked (mnemonic : String) (s : Shape) : List Expansion :=
  match s.variants with
  | [] => [⟨mnemonic, s.encodesType, s.params, s.opcode, none⟩]
  | variants => variants.map (s.typed mnemonic)

/-- The expansions of a table in its order. -/
def expansions (table : List Mnemonic) : List Expansion :=
  table.flatMap fun m => m.shapes.flatMap (Shape.asked m.name)

theorem map_outcome_asked (mnemonic : String) (s : Shape) :
    (s.asked mnemonic).map Expansion.outcome = s.expansions mnemonic := by
  rw [Shape.asked, Shape.expansions]
  rcases s.variants with - | ⟨v, vs⟩
  · rfl
  · exact List.map_map

theorem map_outcome_expansions (table : List Mnemonic) :
    (expansions table).map Expansion.outcome = table.flatMap Mnemonic.expansions := by
  simp only [expansions, List.map_flatMap, map_outcome_asked]
  rfl

/-! ### What a catalog can hold -/

variable {xs xs' : List Expansion} {x y : Expansion} {c c' : Catalog} {e : CatalogError}
variable {i : Instruction} {table table' : List Mnemonic}

/-- All expansions are resolvable, and no two have the same opcode. -/
structure Consistent (xs : List Expansion) : Prop where
  resolvable : ∀ x ∈ xs, x.Resolvable
  distinct : (xs.map (·.opcode)).Nodup

/-- What is wrong with an expansion after others: it is not resolvable, or one of the others has its
opcode. -/
def Expansion.Faulty (before : List Expansion) (x : Expansion) (e : CatalogError) : Prop :=
  ¬ x.Resolvable ∧ e = x.fault ∨
    x.Resolvable ∧ ∃ y ∈ before, y.opcode = x.opcode ∧
      e = .duplicateOpcode x.opcode x.instruction.text y.instruction.text

/-- The error is that of the first expansion that is not resolvable or has the opcode of an earlier
one. -/
def FirstFault (xs : List Expansion) (e : CatalogError) : Prop :=
  ∃ before x after, xs = before ++ x :: after ∧ Consistent before ∧ x.Faulty before e

theorem Consistent.nil : Consistent [] := ⟨List.forall_mem_nil _, List.nodup_nil⟩

theorem consistent_concat_iff :
    Consistent (xs ++ [x]) ↔
      Consistent xs ∧ x.Resolvable ∧ ∀ y ∈ xs, y.opcode ≠ x.opcode := by
  constructor
  · rintro ⟨hresolvable, hdistinct⟩
    obtain ⟨hbefore, hx⟩ := List.forall_mem_append.1 hresolvable
    rw [List.map_append, List.nodup_append] at hdistinct
    obtain ⟨hnodup, -, hne⟩ := hdistinct
    exact ⟨⟨hbefore, hnodup⟩, List.forall_mem_singleton.1 hx, fun y hy =>
      hne _ (List.mem_map_of_mem hy) _ (List.mem_singleton_self _)⟩
  · rintro ⟨⟨hresolvable, hdistinct⟩, hx, hne⟩
    refine ⟨List.forall_mem_append.2 ⟨hresolvable, List.forall_mem_singleton.2 hx⟩, ?_⟩
    rw [List.map_append, List.nodup_append]
    refine ⟨hdistinct, List.nodup_singleton _, fun a ha b hb => ?_⟩
    obtain ⟨y, hy, rfl⟩ := List.mem_map.1 ha
    obtain rfl := List.mem_singleton.1 hb
    exact hne y hy

/-- Expansions that are not consistent have a first fault. -/
theorem exists_firstFault (h : ¬ Consistent xs) : ∃ e, FirstFault xs e := by
  induction xs using List.reverseRecOn with
  | nil => exact absurd .nil h
  | append_singleton xs x ih =>
    by_cases hxs : Consistent xs
    · by_cases hx : x.Resolvable
      · obtain ⟨y, hy, hopcode⟩ : ∃ y ∈ xs, y.opcode = x.opcode := by
          by_contra hnone
          exact h (consistent_concat_iff.2 ⟨hxs, hx, fun y hy heq => hnone ⟨y, hy, heq⟩⟩)
        exact ⟨_, xs, x, [], rfl, hxs, .inr ⟨hx, y, hy, hopcode, rfl⟩⟩
      · exact ⟨_, xs, x, [], rfl, hxs, .inl ⟨hx, rfl⟩⟩
    · obtain ⟨e, before, y, after, rfl, hbefore, hfaulty⟩ := ih hxs
      refine ⟨e, before, y, after ++ [x], ?_, hbefore, hfaulty⟩
      rw [List.append_assoc, List.cons_append]

namespace Catalog

/-- An opcode finds its instruction. -/
theorem get?_of_mem (hi : i ∈ c.entries) : c.get? i.opcode = some i := by
  rcases hget : c.get? i.opcode with - | j
  · exact absurd rfl (opcode_ne_of_get?_eq_none hget hi)
  · have hj := List.mem_of_find?_eq_some hget
    have hopcode : j.opcode = i.opcode := by simpa using List.find?_some hget
    have hnodup : (c.entries.map (·.opcode)).Nodup := List.pairwise_map.2 c.distinct
    exact congrArg some (List.inj_on_of_nodup_map hnodup hj hi hopcode)

theorem get?_eq_none {opcode : UInt8} (h : ∀ i ∈ c.entries, i.opcode ≠ opcode) :
    c.get? opcode = none :=
  List.find?_eq_none.2 fun i hi => by simpa using h i hi

theorem insert_of_new (h : ∀ j ∈ c.entries, j.opcode ≠ i.opcode) :
    ∃ c', c.insert i = .ok c' ∧ c'.entries = c.entries ++ [i] := by
  have hget := get?_eq_none h
  rw [insert]
  split
  · next j hj =>
    rw [hget] at hj
    cases hj
  · exact ⟨_, rfl, rfl⟩

theorem insert_of_mem {j : Instruction} (hj : j ∈ c.entries) (hopcode : j.opcode = i.opcode) :
    c.insert i = .error (.duplicateOpcode i.opcode i.text j.text) := by
  have hget := get?_of_mem hj
  rw [hopcode] at hget
  rw [insert]
  split
  · next j' hj' =>
    obtain rfl := Option.some.inj (hget.symm.trans hj')
    rfl
  · next hnone =>
    rw [hget] at hnone
    cases hnone

/-! ### Building -/

theorem insertAll_append (c : Catalog) (xs ys : List (Except CatalogError Instruction)) :
    c.insertAll (xs ++ ys) =
      match c.insertAll xs with
      | .error e => .error e
      | .ok c' => c'.insertAll ys := by
  induction xs generalizing c with
  | nil => rfl
  | cons x xs ih =>
    rcases x with e | i
    · rfl
    · rw [List.cons_append, insertAll, insertAll]
      rcases c.insert i with e | c'
      · rfl
      · exact ih c'

/-- Building from consistent expansions succeeds, and the catalog holds all of them. -/
theorem insertAll_of_consistent (h : Consistent xs) :
    ∃ c, empty.insertAll (xs.map Expansion.outcome) = .ok c ∧
      c.entries = xs.map Expansion.instruction := by
  induction xs using List.reverseRecOn with
  | nil => exact ⟨empty, rfl, rfl⟩
  | append_singleton xs x ih =>
    obtain ⟨hxs, hx, hne⟩ := consistent_concat_iff.1 h
    obtain ⟨c, hc, hentries⟩ := ih hxs
    have hnew : ∀ j ∈ c.entries, j.opcode ≠ x.instruction.opcode := by
      rw [hentries]
      exact List.forall_mem_map.2 hne
    obtain ⟨c', hc', hentries'⟩ := insert_of_new hnew
    refine ⟨c', ?_, ?_⟩
    · rw [List.map_append, insertAll_append, hc]
      simp only [List.map_cons, List.map_nil, Expansion.outcome_of_resolvable hx, insertAll, hc']
    · rw [hentries', hentries, List.map_append, List.map_singleton]

/-- Building stops at a faulty expansion. -/
theorem insertAll_of_firstFault (h : FirstFault xs e) :
    empty.insertAll (xs.map Expansion.outcome) = .error e := by
  obtain ⟨before, x, after, rfl, hbefore, hfaulty⟩ := h
  obtain ⟨c, hc, hentries⟩ := insertAll_of_consistent hbefore
  rw [List.map_append, insertAll_append, hc, List.map_cons]
  rcases hfaulty with ⟨hx, rfl⟩ | ⟨hx, y, hy, hopcode, rfl⟩
  · rw [Expansion.outcome_of_not_resolvable hx]
    rfl
  · have hmem : y.instruction ∈ c.entries := by
      rw [hentries]
      exact List.mem_map_of_mem hy
    have hinsert : c.insert x.instruction = _ := insert_of_mem hmem hopcode
    simp only [Expansion.outcome_of_resolvable hx, insertAll, hinsert]
    rfl

theorem build_eq (table : List Mnemonic) :
    build table = empty.insertAll ((expansions table).map Expansion.outcome) := by
  rw [build, map_outcome_expansions]

/-- **A catalog is built exactly from a consistent table,** and holds its expansions. -/
theorem build_eq_ok (h : build table = .ok c) :
    Consistent (expansions table) ∧ c.entries = (expansions table).map Expansion.instruction := by
  rw [build_eq] at h
  by_cases hconsistent : Consistent (expansions table)
  · obtain ⟨c', hc', hentries⟩ := insertAll_of_consistent hconsistent
    obtain rfl := Except.ok.inj (h.symm.trans hc')
    exact ⟨hconsistent, hentries⟩
  · obtain ⟨e, he⟩ := exists_firstFault hconsistent
    rw [insertAll_of_firstFault he] at h
    cases h

theorem exists_build_iff : (∃ c, build table = .ok c) ↔ Consistent (expansions table) := by
  refine ⟨fun ⟨c, hc⟩ => (build_eq_ok hc).1, fun h => ?_⟩
  obtain ⟨c, hc, -⟩ := insertAll_of_consistent h
  exact ⟨c, (build_eq table).trans hc⟩

/-- **Else the error is that of the first fault.** -/
theorem build_eq_error_iff : build table = .error e ↔ FirstFault (expansions table) e := by
  constructor
  · intro h
    have hconsistent : ¬ Consistent (expansions table) := by
      intro hconsistent
      obtain ⟨c, hc⟩ := exists_build_iff.2 hconsistent
      rw [hc] at h
      cases h
    obtain ⟨e', he'⟩ := exists_firstFault hconsistent
    rw [build_eq, insertAll_of_firstFault he'] at h
    exact Except.error.inj h ▸ he'
  · intro h
    rw [build_eq, insertAll_of_firstFault h]

end Catalog

/-! ### The catalog of a table -/

/-- A number has a width of its kind. -/
def Operand.Sized : Operand → Prop
  | .int width => width ∈ [1, 2, 4, 8]
  | .float width => width ∈ [4, 8]
  | _ => True

/-- The catalog is that of the expansions: each is found under its opcode and nothing under any
other, and the instructions are listed once each, by ascending opcodes. -/
structure Catalog.Lists (c : Catalog) (xs : List Expansion) : Prop where
  unique : ∀ x ∈ xs, ∀ y ∈ xs, x.opcode = y.opcode → x = y
  found : ∀ x ∈ xs, c.get? x.opcode = some x.instruction
  absent : ∀ opcode, (∀ x ∈ xs, x.opcode ≠ opcode) → c.get? opcode = none
  size : c.size = xs.length
  ascending : c.instructions.Pairwise (·.opcode < ·.opcode)
  members : ∀ i, i ∈ c.instructions ↔ ∃ x ∈ xs, x.instruction = i
  sized : ∀ i ∈ c.instructions, ∀ o ∈ i.operands, o.Sized

theorem width_mem_of_int {tag : TypeTag} (h : tag.isFloat = false) : tag.width ∈ [1, 2, 4, 8] := by
  revert h
  cases tag <;> decide

theorem width_mem_of_float {tag : TypeTag} (h : tag.isFloat = true) : tag.width ∈ [4, 8] := by
  revert h
  cases tag <;> decide

theorem Param.sized_of_operand? {o : Operand} (hfits : p.Fits variant)
    (h : p.operand? encodesType variant = some o) : o.Sized := by
  cases p with
  | int =>
    obtain ⟨tag, rfl, htag⟩ := hfits
    obtain rfl := Option.some.inj h
    exact width_mem_of_int htag
  | float =>
    obtain ⟨tag, rfl, htag⟩ := hfits
    obtain rfl := Option.some.inj h
    exact width_mem_of_float htag
  | intType =>
    cases encodesType <;> cases h
    trivial
  | floatType =>
    cases encodesType <;> cases h
    trivial
  | sysId =>
    obtain rfl := Option.some.inj h
    simp [Operand.Sized]
  | _ =>
    obtain rfl := Option.some.inj h
    trivial

theorem Expansion.sized_of_mem {o : Operand} (hx : x.Resolvable)
    (ho : o ∈ x.instruction.operands) : o.Sized := by
  obtain ⟨p, hp, hoperand⟩ := List.mem_filterMap.1 ho
  exact Param.sized_of_operand? (hx p hp) hoperand

theorem Catalog.mem_instructions {c : Catalog} : i ∈ c.instructions ↔ i ∈ c.entries :=
  (List.mergeSort_perm _ _).mem_iff

/-- The instructions stand in the order of their opcodes, without repetitions. -/
theorem Catalog.pairwise_instructions (c : Catalog) :
    c.instructions.Pairwise (·.opcode < ·.opcode) := by
  have htrans (a b c : Instruction) :
      decide (a.opcode ≤ b.opcode) → decide (b.opcode ≤ c.opcode) →
        decide (a.opcode ≤ c.opcode) := by
    simpa using UInt8.le_trans
  have htotal (a b : Instruction) :
      decide (a.opcode ≤ b.opcode) || decide (b.opcode ≤ a.opcode) := by
    simpa using UInt8.le_total a.opcode b.opcode
  have hsorted : c.instructions.Pairwise (fun a b => decide (a.opcode ≤ b.opcode)) :=
    List.pairwise_mergeSort htrans htotal c.entries
  have hdistinct : c.instructions.Pairwise (·.opcode ≠ ·.opcode) :=
    (List.mergeSort_perm _ _).pairwise_iff (fun h => h.symm) |>.2 c.distinct
  refine (hsorted.and hdistinct).imp fun h => ?_
  exact UInt8.lt_of_le_of_ne (of_decide_eq_true h.1) h.2

theorem lists_of_build (h : Catalog.build table = .ok c) : c.Lists (expansions table) := by
  obtain ⟨hconsistent, hentries⟩ := Catalog.build_eq_ok h
  have hmem (i : Instruction) : i ∈ c.entries ↔ ∃ x ∈ expansions table, x.instruction = i := by
    rw [hentries, List.mem_map]
  exact {
    unique := fun x hx y hy hopcode =>
      List.inj_on_of_nodup_map hconsistent.distinct hx hy hopcode
    found := fun x hx => Catalog.get?_of_mem ((hmem _).2 ⟨x, hx, rfl⟩)
    absent := fun opcode hne => Catalog.get?_eq_none fun i hi => by
      obtain ⟨x, hx, rfl⟩ := (hmem i).1 hi
      exact hne x hx
    size := by rw [Catalog.size, hentries, List.length_map]
    ascending := c.pairwise_instructions
    members := fun i => Catalog.mem_instructions.trans (hmem i)
    sized := fun i hi => by
      obtain ⟨x, hx, rfl⟩ := (hmem i).1 (Catalog.mem_instructions.1 hi)
      exact fun o ho => Expansion.sized_of_mem (hconsistent.resolvable x hx) ho }

/-! ### The order of a table -/

/-- The same shape with its variants in any order. -/
structure Shape.Rearranges (s s' : Shape) : Prop where
  opcode : s.opcode = s'.opcode
  encodesType : s.encodesType = s'.encodesType
  params : s.params = s'.params
  variants : s.variants.Perm s'.variants

/-- The same mnemonic with its shapes in any order, and so their variants. -/
structure Mnemonic.Rearranges (m m' : Mnemonic) : Prop where
  name : m.name = m'.name
  shapes : ∃ ss, m.shapes.Perm ss ∧ List.Forall₂ Shape.Rearranges ss m'.shapes

/-- The same table with its mnemonics in any order, and so their shapes and variants. -/
def Rearranges (table table' : List Mnemonic) : Prop :=
  ∃ ms, table.Perm ms ∧ List.Forall₂ Mnemonic.Rearranges ms table'

theorem perm_flatMap_of_forall₂ {α β : Type} {R : α → α → Prop} {f g : α → List β}
    {as bs : List α} (h : List.Forall₂ R as bs) (hR : ∀ a b, R a b → (f a).Perm (g b)) :
    (as.flatMap f).Perm (bs.flatMap g) := by
  induction h with
  | nil => exact .nil
  | cons hab _ ih => exact (hR _ _ hab).append ih

theorem Shape.Rearranges.asked {s s' : Shape} (h : s.Rearranges s') (mnemonic : String) :
    (s.asked mnemonic).Perm (s'.asked mnemonic) := by
  obtain ⟨opcode, encodesType, params, variants⟩ := s
  obtain ⟨opcode', encodesType', params', variants'⟩ := s'
  obtain ⟨rfl, rfl, rfl, hvariants⟩ := h
  have hvariants : variants.Perm variants' := hvariants
  rcases variants with - | ⟨v, vs⟩
  · rw [List.nil_perm.1 hvariants]
  · rcases variants' with - | ⟨v', vs'⟩
    · cases hvariants.eq_nil
    · exact hvariants.map (Shape.typed mnemonic ⟨opcode, encodesType, params, []⟩)

/-- A table in another order asks for the same expansions in another order. -/
theorem Rearranges.expansions (h : Rearranges table table') :
    (expansions table).Perm (expansions table') := by
  obtain ⟨ms, hperm, hms⟩ := h
  refine (hperm.flatMap_right _).trans (perm_flatMap_of_forall₂ hms fun m m' hm => ?_)
  obtain ⟨hname, ss, hshapes, hss⟩ := hm
  refine (hshapes.flatMap_right _).trans (perm_flatMap_of_forall₂ hss fun s s' hs => ?_)
  rw [hname]
  exact hs.asked m'.name

theorem Consistent.perm (h : Consistent xs) (hperm : xs.Perm xs') : Consistent xs' :=
  ⟨fun x hx => h.resolvable x (hperm.mem_iff.2 hx), (hperm.map _).nodup h.distinct⟩

/-- Catalogs of the same expansions have the same instructions under the same opcodes. -/
theorem Catalog.Lists.congr (h : c.Lists xs) (h' : c'.Lists xs') (hperm : xs.Perm xs') :
    c'.instructions = c.instructions ∧ ∀ opcode, c'.get? opcode = c.get? opcode := by
  constructor
  · have hnodup {c : Catalog} : c.instructions.Nodup := by
      refine c.pairwise_instructions.imp fun hlt => ?_
      rintro rfl
      exact UInt8.lt_irrefl _ hlt
    have hsame : c'.instructions.Perm c.instructions := by
      rw [List.perm_ext_iff_of_nodup hnodup hnodup]
      intro i
      simp only [h.members, h'.members, hperm.mem_iff]
    exact hsame.eq_of_pairwise (fun _ _ _ _ hab hba => absurd hab (UInt8.lt_asymm hba))
      h'.ascending h.ascending
  · intro opcode
    by_cases hopcode : ∃ x ∈ xs, x.opcode = opcode
    · obtain ⟨x, hx, rfl⟩ := hopcode
      rw [h.found x hx, h'.found x (hperm.mem_iff.1 hx)]
    · have hnone : ∀ x ∈ xs, x.opcode ≠ opcode := fun x hx heq => hopcode ⟨x, hx, heq⟩
      rw [h.absent opcode hnone, h'.absent opcode fun x hx => hnone x (hperm.mem_iff.2 hx)]

/-- **Building a catalog is exact.**  It succeeds exactly if all expansions of the table are
resolvable and their opcodes are distinct.  The catalog is then that of the expansions.  Else the
error is that of the first expansion that is not resolvable or has an opcode that is taken.  The
order in which a table lists its mnemonics, their shapes and their variants makes no difference to
the catalog. -/
theorem build_exact (table : List Mnemonic) :
    ((∃ c, Catalog.build table = .ok c) ↔ Consistent (expansions table)) ∧
    (∀ c, Catalog.build table = .ok c → c.Lists (expansions table)) ∧
    (∀ e, Catalog.build table = .error e ↔ FirstFault (expansions table) e) ∧
    (∀ table' c, Rearranges table table' → Catalog.build table = .ok c →
      ∃ c', Catalog.build table' = .ok c' ∧ c'.instructions = c.instructions ∧
        ∀ opcode, c'.get? opcode = c.get? opcode) := by
  refine ⟨Catalog.exists_build_iff, fun c => lists_of_build,
    fun e => Catalog.build_eq_error_iff, ?_⟩
  intro table' c hrearranges hc
  have hperm := hrearranges.expansions
  obtain ⟨c', hc'⟩ := Catalog.exists_build_iff.2 ((Catalog.build_eq_ok hc).1.perm hperm)
  exact ⟨c', hc', (lists_of_build hc).congr (lists_of_build hc') hperm⟩

/-! ### A small table -/

/-- A table with the store of a register to memory and the exit. -/
def storeAndExit : List Mnemonic :=
  [⟨"store", [.plain 0x08 true [.intType, .intReg, .regOffset]]⟩,
    ⟨"exit", [.plain 0x50 false []]⟩]

theorem exists_build_storeAndExit :
    ∃ c, Catalog.build storeAndExit = .ok c ∧
      c.get? 0x08 = some ⟨0x08, "store", [.intTypeTag, .intRegister, .registerOffset], none⟩ ∧
      c.get? 0x50 = some ⟨0x50, "exit", [], none⟩ :=
  ⟨_, rfl, rfl, rfl⟩

end VmProbe.Isa
