import GoOutline.Proofs.Syntax.Cover

/-!
# The kinds of children that a rule allows

A sort of contributions does not tell which nodes contribute it: a name can come from an identifier
and also from a whole type that is one. Here is which nodes a rule has at which fields.

* `kindsOf`: the fields and kinds of the children that a right-hand side can take.
* `RuleName.kinds`: the same for a whole rule.
* `mem_kinds_of_allows`: a rule allows no others.
-/

namespace GoOutline.Syntax

open GoOutline.Grammar (Terminal RuleName Rule Role)

/-- The fields and kinds of the children that a right-hand side can take; `hidden` says so for hidden
rules. A line break does not show. -/
def kindsOf (hidden : RuleName → Option Grammar.Field → List (Option Grammar.Field × Kind)) :
    Rule → Option Grammar.Field → Option Role → List (Option Grammar.Field × Kind)
  | .empty, _, _ => []
  | .token t, field, role => if t = .lineBreak then [] else [(field, .token t role)]
  | .rule n, field, _ => if n.isHidden then hidden n field else [(field, .rule n)]
  | .seq a b, field, role => kindsOf hidden a field role ++ kindsOf hidden b field role
  | .alt a b, field, role => kindsOf hidden a field role ++ kindsOf hidden b field role
  | .many1 r, field, role => kindsOf hidden r field role
  | .field f r, _, role => kindsOf hidden r (some f) role
  | .role k r, field, _ => kindsOf hidden r field (some k)
  | .prec _ _ r, field, role => kindsOf hidden r field role
  | .dynamic _ r, field, role => kindsOf hidden r field role

/-- `kindsOf` for hidden rules that are nested at most `depth` deep. -/
def kindsOfHidden : (depth : Nat) → RuleName → Option Grammar.Field →
    List (Option Grammar.Field × Kind)
  | 0, _, _ => []
  | depth + 1, n, field => kindsOf (kindsOfHidden depth) n.body field none

/-- Some children are taken off the front of others, and each has one of the given kinds. -/
def TakenOff (kinds : List (Option Grammar.Field × Kind)) (cs rest : List Child) : Prop :=
  ∃ taken, cs = taken ++ rest ∧ ∀ c ∈ taken, (c.1, c.2.kind) ∈ kinds

namespace TakenOff

variable {kinds more : List (Option Grammar.Field × Kind)} {cs mid rest : List Child}

theorem refl (kinds : List (Option Grammar.Field × Kind)) (cs : List Child) :
    TakenOff kinds cs cs :=
  ⟨[], rfl, by simp⟩

theorem mono (h : TakenOff kinds cs rest) (hkinds : kinds ⊆ more) : TakenOff more cs rest := by
  obtain ⟨taken, hcs, htaken⟩ := h
  exact ⟨taken, hcs, fun c hc => hkinds (htaken c hc)⟩

theorem trans (h : TakenOff kinds cs mid) (hmid : TakenOff kinds mid rest) :
    TakenOff kinds cs rest := by
  obtain ⟨first, rfl, hfirst⟩ := h
  obtain ⟨second, rfl, hsecond⟩ := hmid
  refine ⟨first ++ second, by rw [List.append_assoc], ?_⟩
  exact List.forall_mem_append.mpr ⟨hfirst, hsecond⟩

end TakenOff

theorem takenOff_of_mem_restOfOne {kind : Kind} {field : Option Grammar.Field}
    {cs rest : List Child} (h : rest ∈ restOfOne kind field cs) :
    TakenOff [(field, kind)] cs rest := by
  fun_cases restOfOne kind field cs with
  | case1 => cases h
  | case2 f node more hkind =>
    rw [restOfOne, if_pos hkind, List.mem_singleton] at h
    obtain ⟨rfl, rfl⟩ := hkind
    refine ⟨[(f, node)], by rw [h]; rfl, ?_⟩
    simp
  | case3 f node more hkind => simp [restOfOne, hkind] at h

/-- What a right-hand side takes off the children has its kinds. The induction is on the right-hand
side. -/
theorem takenOff_of_mem_restsOf
    {hidden : RuleName → Option Grammar.Field → List Child → List (List Child)}
    {kinds : RuleName → Option Grammar.Field → List (Option Grammar.Field × Kind)}
    (hhidden : ∀ n field cs, ∀ rest ∈ hidden n field cs, TakenOff (kinds n field) cs rest)
    (r : Rule) (field : Option Grammar.Field) (role : Option Role) {cs rest : List Child}
    (h : rest ∈ restsOf hidden r field role cs) :
    TakenOff (kindsOf kinds r field role) cs rest := by
  induction r generalizing field role cs rest with
  | empty =>
    rw [restsOf, List.mem_singleton] at h
    exact h ▸ .refl _ _
  | token t =>
    by_cases ht : t = .lineBreak
    · subst ht
      rw [restsOf, List.mem_singleton] at h
      exact h ▸ .refl _ _
    · rw [restsOf.eq_3 _ _ _ _ _ ht] at h
      rw [kindsOf, if_neg ht]
      exact takenOff_of_mem_restOfOne h
  | rule n =>
    rw [restsOf] at h
    rw [kindsOf]
    split at h
    · next hn =>
      rw [if_pos hn]
      exact hhidden n field cs rest h
    · next hn =>
      rw [if_neg hn]
      exact takenOff_of_mem_restOfOne h
  | seq a b iha ihb =>
    rw [restsOf] at h
    obtain ⟨mid, hmid, hrest⟩ := List.mem_flatMap.mp h
    have hfirst := iha field role (mem_of_mem_distinct hmid)
    have hsecond := ihb field role hrest
    exact (hfirst.mono (List.subset_append_left _ _)).trans
      (hsecond.mono (List.subset_append_right _ _))
  | alt a b iha ihb =>
    rw [restsOf] at h
    rcases List.mem_append.mp h with h | h
    · exact (iha field role h).mono (List.subset_append_left _ _)
    · exact (ihb field role h).mono (List.subset_append_right _ _)
  | many1 r ih =>
    rw [restsOf] at h
    obtain ⟨start, hstart, hrun⟩ := exists_transGen_of_mem_restsOfMany h
    rw [List.mem_singleton] at hstart
    subst hstart
    clear h
    induction hrun using Relation.TransGen.head_induction_on with
    | single hstep => exact ih field role hstep
    | head hstep _ ihrun => exact (ih field role hstep).trans ihrun
  | field f r ih => exact ih (some f) role (by rwa [restsOf] at h)
  | role k r ih => exact ih field (some k) (by rwa [restsOf] at h)
  | prec p a r ih => exact ih field role (by rwa [restsOf] at h)
  | dynamic d r ih => exact ih field role (by rwa [restsOf] at h)

theorem takenOff_of_mem_restsOfHidden (depth : Nat) (n : RuleName) (field : Option Grammar.Field)
    (cs : List Child) :
    ∀ rest ∈ restsOfHidden depth n field cs, TakenOff (kindsOfHidden depth n field) cs rest := by
  induction depth generalizing n field cs with
  | zero => intro rest h; cases h
  | succ depth ih =>
    intro rest h
    exact takenOff_of_mem_restsOf ih n.body field none h

end GoOutline.Syntax

/-- The fields and kinds of the children that a rule can have. -/
def GoOutline.Grammar.RuleName.kinds (n : GoOutline.Grammar.RuleName) :
    List (Option GoOutline.Grammar.Field × GoOutline.Syntax.Kind) :=
  GoOutline.Syntax.kindsOf (GoOutline.Syntax.kindsOfHidden GoOutline.Syntax.hiddenDepth) n.body none
    none

namespace GoOutline.Syntax

open GoOutline.Grammar (RuleName)

/-- A rule allows no children of other kinds, or of these at other fields. -/
theorem mem_kinds_of_allows {n : RuleName} {cs : List Child} (h : allows n cs = true) :
    ∀ c ∈ cs, (c.1, c.2.kind) ∈ n.kinds := by
  obtain ⟨rest, hmem, hrest⟩ := List.any_eq_true.mp h
  obtain rfl := List.isEmpty_iff.mp hrest
  obtain ⟨taken, rfl, htaken⟩ :=
    takenOff_of_mem_restsOf (takenOff_of_mem_restsOfHidden hiddenDepth) n.body none none hmem
  intro c hc
  rw [List.append_nil] at hc
  exact htaken c hc

end GoOutline.Syntax
