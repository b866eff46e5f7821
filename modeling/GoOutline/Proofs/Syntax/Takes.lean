import GoOutline.Grammar.Production
import GoOutline.Proofs.Syntax.Kinds

/-!
# Children that a right-hand side takes

`restsOf` keeps one of several rests of the same length, and counts the rounds of a repetition. Neither
loses anything: rests are ends of one list, and a round that takes nothing is not needed.

* `mem_restsOfMany`: what several rounds leave is found, however many they are.
* `Takes`: a right-hand side takes some children, whatever follows them.
* `Takes.seq`, `takes_many1_iff`: what it is for each kind of right-hand side.
* `takes_of_mem_expand`: a right-hand side takes what the places of one of its plain sequences take.
* `isRegular`, `isRegular_body`: what all rules of the grammar have in common.
-/

namespace GoOutline.Syntax

open GoOutline.Grammar

/-! ### Nothing is lost -/

theorem mem_distinct {whole cs : List Child} {lists : List (List Child)}
    (hwhole : ∀ ds ∈ lists, ds <:+ whole) (h : cs ∈ lists) : cs ∈ distinct lists := by
  induction lists with
  | nil => cases h
  | cons first more ih =>
    obtain ⟨hfirst, hmore⟩ := List.forall_mem_cons.mp hwhole
    have hkept : cs ∈ more → cs ∈ distinct more := ih hmore
    rw [distinct, List.foldr_cons, ← distinct]
    split
    · next hlong =>
      rcases List.mem_cons.mp h with rfl | h
      · -- another end of the same length is kept, and it is the same
        obtain ⟨ds, hds, hlength⟩ := List.any_eq_true.mp hlong
        have hsuffix := hmore ds (mem_of_mem_distinct hds)
        have heq : ds = cs := by
          have hlength : ds.length = cs.length := eq_of_beq hlength
          have hboth := List.suffix_of_suffix_length_le hsuffix hfirst (Nat.le_of_eq hlength)
          exact hboth.eq_of_length hlength
        exact heq ▸ hds
      · exact hkept h
    · rcases List.mem_cons.mp h with rfl | h
      · exact List.mem_cons_self
      · exact List.mem_cons_of_mem first (hkept h)

section

variable {step : List Child → List (List Child)} (hstep : ∀ cs, ∀ rest ∈ step cs, rest <:+ cs)

include hstep

/-- Rounds that take nothing can be left out before the others. -/
theorem cases_of_transGen {cs rest : List Child}
    (h : Relation.TransGen (fun cs rest => rest ∈ step cs) cs rest) :
    rest ∈ step cs ∨ ∃ mid ∈ step cs, mid.length < cs.length ∧
      Relation.TransGen (fun cs rest => rest ∈ step cs) mid rest := by
  induction h using Relation.TransGen.head_induction_on with
  | single h => exact .inl h
  | @head cs mid h hrun ih =>
    rcases Nat.lt_or_eq_of_le (hstep cs mid h).length_le with hlt | heq
    · exact .inr ⟨mid, h, hlt, hrun⟩
    · obtain rfl := (hstep cs mid h).eq_of_length heq
      exact ih

/-- What several rounds leave is found. The induction is on the rounds that are counted: each takes at
least one child. -/
theorem mem_restsOfMany {whole cs rest : List Child} {fuel : Nat} {now : List (List Child)}
    (hnow : ∀ ds ∈ now, ds <:+ whole) (hcs : cs ∈ now) (hfuel : cs.length < fuel)
    (h : Relation.TransGen (fun cs rest => rest ∈ step cs) cs rest) :
    rest ∈ restsOfMany step fuel now := by
  induction fuel generalizing now cs with
  | zero => omega
  | succ fuel ih =>
    have hnext : ∀ ds ∈ now.flatMap step, ds <:+ whole := by
      intro ds hds
      obtain ⟨es, hes, hds⟩ := List.mem_flatMap.mp hds
      exact (hstep es ds hds).trans (hnow es hes)
    have hkept : ∀ mid ∈ step cs, mid ∈ distinct (now.flatMap step) := fun mid hmid =>
      mem_distinct hnext (List.mem_flatMap.mpr ⟨cs, hcs, hmid⟩)
    have hfound : rest ∈ distinct (now.flatMap step) ++
        restsOfMany step fuel (distinct (now.flatMap step)) := by
      rcases cases_of_transGen hstep h with h | ⟨mid, hmid, hlt, hrun⟩
      · exact List.mem_append_left _ (hkept rest h)
      · refine List.mem_append_right _ (ih ?_ (hkept mid hmid) (by omega) hrun)
        exact fun ds hds => hnext ds (mem_of_mem_distinct hds)
    rw [restsOfMany]
    split
    · next hnil =>
      rw [hnil, List.nil_append] at hfound
      cases fuel with
      | zero => cases hfound
      | succ fuel => cases hfound
    · exact hfound

end

/-! ### What a right-hand side takes -/

theorem suffix_of_mem_restsOf {depth : Nat} {r : Rule} {field : Option Grammar.Field}
    {role : Option Role} {cs rest : List Child}
    (h : rest ∈ restsOf (restsOfHidden depth) r field role cs) : rest <:+ cs := by
  obtain ⟨taken, rfl, -⟩ :=
    takenOff_of_mem_restsOf (takenOff_of_mem_restsOfHidden depth) r field role h
  exact List.suffix_append taken rest

/-- A right-hand side takes some children off the front of any list. Hidden rules are nested at most
`depth` deep in it. -/
def Takes (depth : Nat) (r : Rule) (field : Option Grammar.Field) (role : Option Role)
    (taken : List Child) : Prop :=
  ∀ rest, rest ∈ restsOf (restsOfHidden depth) r field role (taken ++ rest)

variable {depth : Nat} {field : Option Grammar.Field} {role : Option Role} {us vs : List Child}

theorem takes_one {kind : Kind} {c : Child} (hfield : c.1 = field) (hkind : c.2.kind = kind)
    (rest : List Child) : rest ∈ restOfOne kind field ([c] ++ rest) := by
  rw [List.singleton_append, restOfOne, if_pos ⟨hfield, hkind⟩]
  exact List.mem_singleton_self rest

namespace Takes

theorem empty : Takes depth .empty field role [] := fun rest => by
  rw [restsOf]
  exact List.mem_singleton_self rest

theorem lineBreak : Takes depth (.token .lineBreak) field role [] := fun rest => by
  rw [restsOf]
  exact List.mem_singleton_self rest

theorem token {t : Terminal} (ht : t ≠ .lineBreak) {c : Child} (hfield : c.1 = field)
    (hkind : c.2.kind = .token t role) : Takes depth (.token t) field role [c] := fun rest => by
  rw [restsOf.eq_3 _ _ _ _ _ ht]
  exact takes_one hfield hkind rest

theorem rule {n : RuleName} (hn : n.isHidden = false) {c : Child} (hfield : c.1 = field)
    (hkind : c.2.kind = .rule n) : Takes depth (.rule n) field role [c] := fun rest => by
  rw [restsOf, hn]
  exact takes_one hfield hkind rest

theorem hidden {n : RuleName} (hn : n.isHidden) (h : Takes depth n.body field none us) :
    Takes (depth + 1) (.rule n) field role us := fun rest => by
  rw [restsOf, if_pos hn]
  exact h rest

theorem seq {a b : Rule} (ha : Takes depth a field role us) (hb : Takes depth b field role vs) :
    Takes depth (.seq a b) field role (us ++ vs) := fun rest => by
  rw [restsOf, List.append_assoc]
  refine List.mem_flatMap.mpr ⟨vs ++ rest, ?_, hb rest⟩
  exact mem_distinct (fun _ => suffix_of_mem_restsOf) (ha (vs ++ rest))

theorem altLeft {a : Rule} (b : Rule) (h : Takes depth a field role us) :
    Takes depth (.alt a b) field role us := fun rest => by
  rw [restsOf]
  exact List.mem_append_left _ (h rest)

theorem altRight (a : Rule) {b : Rule} (h : Takes depth b field role us) :
    Takes depth (.alt a b) field role us := fun rest => by
  rw [restsOf]
  exact List.mem_append_right _ (h rest)

/-- A rule allows what it takes as a whole. -/
theorem allows {n : RuleName} (h : Takes hiddenDepth n.body none none us) : allows n us := by
  have hnil := h []
  rw [List.append_nil] at hnil
  exact List.any_eq_true.mpr ⟨[], hnil, rfl⟩

end Takes

/-- A repetition takes what can be taken round by round. -/
theorem takes_many1_iff {r : Rule} : Takes depth (.many1 r) field role us ↔ ∀ rest,
    Relation.TransGen (fun cs rest => rest ∈ restsOf (restsOfHidden depth) r field role cs)
      (us ++ rest) rest := by
  constructor
  · intro h rest
    have hmem := h rest
    rw [restsOf] at hmem
    obtain ⟨cs, hcs, hrun⟩ := exists_transGen_of_mem_restsOfMany hmem
    rwa [List.mem_singleton.mp hcs] at hrun
  · intro h rest
    rw [restsOf]
    have hnow : ∀ ds ∈ [us ++ rest], ds <:+ us ++ rest := by
      intro ds hds
      obtain rfl := List.mem_singleton.mp hds
      exact List.suffix_refl _
    exact mem_restsOfMany (fun _ _ => suffix_of_mem_restsOf) hnow (List.mem_singleton_self _)
      (Nat.lt_succ_self _) (h rest)

theorem Takes.once {r : Rule} (h : Takes depth r field role us) :
    Takes depth (.many1 r) field role us :=
  takes_many1_iff.mpr fun rest => .single (h rest)

theorem Takes.again {r : Rule} (hus : Takes depth (.many1 r) field role us)
    (hvs : Takes depth (.many1 r) field role vs) : Takes depth (.many1 r) field role (us ++ vs) := by
  rw [takes_many1_iff] at hus hvs ⊢
  intro rest
  rw [List.append_assoc]
  exact (hus (vs ++ rest)).trans (hvs rest)

/-! ### Plain sequences -/

/-- The right-hand side that one place of a plain sequence stands for. -/
def ruleOf : Atom → Rule
  | .token t => .token t
  | .rule n => .rule n
  | .many r => .many1 r

theorem places_append (x y : Alternative) : (x.append y).places = x.places ++ y.places := by
  unfold Alternative.append
  split
  · next hnil => rw [List.isEmpty_iff.mp hnil, List.append_nil]
  · rfl

/-- The places of a plain sequence take some children one after the other. The field `outer` is that of
what stands around the sequence. -/
inductive TakesAll (depth : Nat) (outer : Option Grammar.Field) : List Place → List Child → Prop
  | nil : TakesAll depth outer [] []
  | cons {p : Place} {ps : List Place} {us vs : List Child}
      (hus : Takes depth (ruleOf p.atom) (p.field <|> outer) p.role us)
      (hvs : TakesAll depth outer ps vs) : TakesAll depth outer (p :: ps) (us ++ vs)

namespace TakesAll

variable {outer : Option Grammar.Field} {ps qs : List Place}

theorem of_singleton {p : Place} (h : TakesAll depth outer [p] us) :
    Takes depth (ruleOf p.atom) (p.field <|> outer) p.role us := by
  cases h with
  | cons hus hnil =>
    cases hnil
    rwa [List.append_nil]

theorem of_append (h : TakesAll depth outer (ps ++ qs) us) : ∃ vs ws, us = vs ++ ws ∧
    TakesAll depth outer ps vs ∧ TakesAll depth outer qs ws := by
  induction ps generalizing us with
  | nil => exact ⟨[], us, rfl, .nil, h⟩
  | cons p ps ih =>
    cases h with
    | cons hus hmore =>
      obtain ⟨vs, ws, rfl, hvs, hws⟩ := ih hmore
      exact ⟨_, ws, (List.append_assoc ..).symm, .cons hus hvs, hws⟩

/-- Two runs of a repetition are one. -/
theorem of_runs {r : Rule}
    (h : TakesAll depth outer [⟨.many r, none, none⟩, ⟨.many r, none, none⟩] us) :
    Takes depth (.many1 r) outer none us := by
  cases h with
  | cons hus hmore => exact hus.again hmore.of_singleton

end TakesAll

/-- A right-hand side takes what the places of one of its plain sequences take. The induction is on the
right-hand side. -/
theorem takes_of_mem_expand {r : Rule} {around : Surroundings} {x : Alternative}
    (hx : x ∈ r.expand around) {outer : Option Grammar.Field}
    (h : TakesAll depth outer x.places us) :
    Takes depth r (around.field <|> outer) around.role us := by
  induction r generalizing around x us with
  | empty =>
    obtain rfl := List.mem_singleton.mp hx
    cases h
    exact .empty
  | token t =>
    obtain rfl := List.mem_singleton.mp hx
    exact h.of_singleton
  | rule n =>
    obtain rfl := List.mem_singleton.mp hx
    exact h.of_singleton
  | many1 r _ =>
    obtain rfl := List.mem_singleton.mp hx
    exact h.of_singleton
  | seq a b iha ihb =>
    obtain ⟨y, hy, hx⟩ := List.mem_flatMap.mp hx
    obtain ⟨z, hz, rfl⟩ := List.mem_map.mp hx
    rw [places_append] at h
    obtain ⟨vs, ws, rfl, hvs, hws⟩ := h.of_append
    exact (iha hy hvs).seq (ihb hz hws)
  | alt a b iha ihb =>
    rcases List.mem_append.mp hx with hx | hx
    · exact (iha hx h).altLeft b
    · exact (ihb hx h).altRight a
  | field f r ih => exact ih hx h
  | role k r ih => exact ih hx h
  | prec p a r ih =>
    -- the labels around the right-hand side stay as they are
    cases a <;> rw [Rule.expand] at hx <;> have hr := ih hx h <;> exact hr
  | dynamic d r ih =>
    obtain ⟨y, hy, rfl⟩ := List.mem_map.mp hx
    exact ih hy h

/-! ### What the rules have in common -/

/-- Whether a right-hand side is one of a part of a file: it does not hold a whole file or its end, no
repetition stands for an identifier with a role, and hidden rules are nested as `hidden` says. -/
def isRegular (hidden : RuleName → Bool) : Rule → (hasRole : Bool) → Bool
  | .empty, _ => true
  | .token t, _ => t != .endOfInput
  | .rule n, _ => if n.isHidden then hidden n else n != .sourceFile
  | .seq a b, hasRole | .alt a b, hasRole => isRegular hidden a hasRole && isRegular hidden b hasRole
  | .many1 r, hasRole => !hasRole && isRegular hidden r false
  | .role _ r, _ => isRegular hidden r true
  | .field _ r, hasRole | .prec _ _ r, hasRole | .dynamic _ r, hasRole => isRegular hidden r hasRole

/-- The same for hidden rules that are nested at most `depth` deep. -/
def isRegularHidden : (depth : Nat) → RuleName → Bool
  | 0, _ => false
  | depth + 1, n => isRegular (isRegularHidden depth) n.body false

theorem isRegular_body (n : RuleName) : isRegular (isRegularHidden hiddenDepth) n.body false := by
  cases n <;> decide

theorem isRegular_of_mem_expand {hidden : RuleName → Bool} {r : Rule} {around : Surroundings}
    {x : Alternative} (hx : x ∈ r.expand around) (h : isRegular hidden r around.role.isSome)
    {p : Place} (hp : p ∈ x.places) : isRegular hidden (ruleOf p.atom) p.role.isSome := by
  induction r generalizing around x with
  | empty =>
    obtain rfl := List.mem_singleton.mp hx
    cases hp
  | token t =>
    obtain rfl := List.mem_singleton.mp hx
    obtain rfl := List.mem_singleton.mp hp
    exact h
  | rule n =>
    obtain rfl := List.mem_singleton.mp hx
    obtain rfl := List.mem_singleton.mp hp
    exact h
  | many1 r _ =>
    obtain rfl := List.mem_singleton.mp hx
    obtain rfl := List.mem_singleton.mp hp
    exact h
  | seq a b iha ihb =>
    obtain ⟨y, hy, hx⟩ := List.mem_flatMap.mp hx
    obtain ⟨z, hz, rfl⟩ := List.mem_map.mp hx
    obtain ⟨ha, hb⟩ := Bool.and_eq_true_iff.mp h
    rw [places_append] at hp
    rcases List.mem_append.mp hp with hp | hp
    · exact iha hy ha hp
    · exact ihb hz hb hp
  | alt a b iha ihb =>
    obtain ⟨ha, hb⟩ := Bool.and_eq_true_iff.mp h
    rcases List.mem_append.mp hx with hx | hx
    · exact iha hx ha hp
    · exact ihb hx hb hp
  | field f r ih => exact ih hx h hp
  | role k r ih => exact ih hx h hp
  | prec p a r ih => cases a <;> rw [Rule.expand] at hx <;> exact ih hx h hp
  | dynamic d r ih =>
    obtain ⟨y, hy, rfl⟩ := List.mem_map.mp hx
    exact ih hy h hp

end GoOutline.Syntax
