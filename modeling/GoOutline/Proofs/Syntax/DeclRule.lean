import GoOutline.Proofs.Syntax.ExprRule

/-!
# What declarations contribute

The same for the rules of declarations and their parts: imports, constants, variables, types,
functions, parameters and fields.
-/

namespace GoOutline.Syntax

open GoOutline.Grammar

attribute [simp] Field.words Field.fits Spec.words Spec.fits ImportSpec.words FuncDecl.words
  FuncType.words FuncType.fits

attribute [local simp] RuleName.body ofRule? ofExprRule? ofDeclRule?

variable {ps : Parts}

/-! ### Package clause and imports -/

theorem exists_parts_of_packageClause (h : Fits .packageClause ps) :
    ∃ s, ps = [(none, .mark .package), (none, .expr (.ident s))] := by
  simpa using h

theorem yields_packageClause (h : Fits .packageClause ps) : Yields .packageClause ps := by
  obtain ⟨s, rfl⟩ := exists_parts_of_packageClause h
  exact ⟨.package s, rfl, ⟨s, rfl⟩, rfl⟩

theorem exists_parts_of_importSpec (h : Fits .importSpec ps) :
    ∃ (qs : Parts) (path : String), ps = qs ++ ([(some .path, .expr (.basicLit .string path))] : Parts) ∧
      ((∃ s, qs = [(some .name, .expr (.ident s))]) ∨ qs = []) := by
  simpa using h

theorem yields_importSpec (h : Fits .importSpec ps) : Yields .importSpec ps := by
  obtain ⟨qs, path, rfl, ⟨s, rfl⟩ | rfl⟩ := exists_parts_of_importSpec h
  · exact ⟨.importSpec ⟨some s, path⟩, rfl, ⟨_, rfl⟩, rfl⟩
  · exact ⟨.importSpec ⟨none, path⟩, rfl, ⟨_, rfl⟩, rfl⟩

theorem yields_importSpecList (h : Fits .importSpecList ps) : Yields .importSpecList ps := by
  obtain ⟨is, his, -, hwords, -⟩ := Parts.exists_mapM_named Fragment.importSpec? (fun _ => True)
    ImportSpec.words (Covers.inList h none [.importSpec] (by decide)) (by
      simp only [List.mem_singleton, forall_eq]
      rintro p ⟨i, rfl⟩
      exact ⟨i, rfl, trivial, rfl⟩)
  exact ⟨.importSpecs is, by simp [his], ⟨is, rfl⟩, hwords⟩

theorem yields_importDeclaration (h : Fits .importDeclaration ps) :
    Yields .importDeclaration ps := by
  obtain ⟨rs, rfl, ⟨i, rfl⟩ | ⟨is, rfl⟩⟩ : ∃ rs : Parts, ps = (none, .mark .import_) :: rs ∧
      ((∃ i, rs = [(none, .importSpec i)]) ∨ ∃ is, rs = [(none, .importSpecs is)]) := by
    simpa using h
  · exact ⟨.imports [i], rfl, ⟨_, rfl⟩, by simp⟩
  · exact ⟨.imports is, rfl, ⟨_, rfl⟩, by simp⟩

/-! ### Names -/

/-- The names in front of a type or a value. -/
theorem exists_names {qs : Parts} (list : ∀ p ∈ qs, InList (some .name) [.name] p) :
    ∃ names, (qs.parts .name).mapM Fragment.name? = some names ∧ names = qs.words ∧
      names.length = qs.named.length := by
  obtain ⟨names, hnames, -, hwords, hlen⟩ := Parts.exists_mapM_named Fragment.name? (fun _ => True)
    (fun s => [s]) list (by
      simp only [List.mem_singleton, forall_eq]
      rintro p ⟨s, rfl⟩
      exact ⟨s, rfl, trivial, rfl⟩)
  refine ⟨names, ?_, ?_, hlen⟩
  · rw [Parts.parts_of_inList list, hnames]
  · simpa using hwords

/-! ### Constants and variables -/

/-- What comes after the names of a constant or a variable: a type, values, or both. -/
def valueParts (type : Option Expr) : Option (List Expr) → Parts
  | none => Parts.optional .type (type.map .expr)
  | some xs =>
    Parts.optional .type (type.map .expr) ++
      ([(none, .mark .assign), (some .value, .exprs xs)] : Parts)

theorem yields_of_valueParts {n : RuleName} (hn : n = .constSpec ∨ n = .varSpec) {qs : Parts}
    (type : Option Expr) (values : Option (List Expr)) (hps : ps = qs ++ valueParts type values)
    (list : ∀ p ∈ qs, InList (some .name) [.name] p) (hqs : qs.named ≠ [])
    (htype : ∀ x ∈ type, x.fits .plain) (hvalues : ∀ xs ∈ values, ∀ x ∈ xs, x.fits .plain) :
    Yields n ps := by
  obtain ⟨names, hnames, hwords, hlen⟩ := exists_names list
  have hne : names ≠ [] := by
    rw [← List.length_pos_iff, hlen]
    exact List.length_pos_iff.mpr hqs
  have hall : ps.all? .name Fragment.name? = some names := by
    cases values <;> simp [hps, Parts.all?, valueParts, hnames]
  have htype? : ps.optional? .type Fragment.expr? = some type := by
    refine Parts.optional?_of_part? (c := .expr) ?_ fun _ => rfl
    cases values <;> simp [hps, valueParts, Parts.part?_eq_none_of_inList list]
  have hvalues? : ps.optional? .value Fragment.exprs? = some values := by
    refine Parts.optional?_of_part? (c := .exprs) ?_ fun _ => rfl
    cases values <;> simp [hps, valueParts, Parts.part?_eq_none_of_inList list]
  have hvalues : ∀ x ∈ values.getD [], x.fits .plain := by
    cases values with
    | none => simp
    | some xs => exact hvalues xs rfl
  refine ⟨.valueSpec names type (values.getD []), ?_, ?_, ?_⟩
  · rcases hn with rfl | rfl <;>
      simp [hall, htype?, hvalues?]
  · rcases hn with rfl | rfl <;>
      simpa [hne, Option.all_eq_true] using fun _ hk => ⟨⟨hk, htype⟩, hvalues⟩
  · cases values <;> simp [hps, valueParts, hwords, Function.comp_def]

theorem yields_constSpec (h : Fits .constSpec ps) : Yields .constSpec ps := by
  obtain ⟨qs, rs, rfl, hqs, hrs⟩ := h
  have list := Covers.inList hqs (some .name) [.name] (by decide)
  have hne := named_ne_nil_of_covers_sep1 hqs (by
    rintro qs ⟨p, rfl, s, rfl⟩
    simp)
  obtain ⟨xs, type, rfl, htype, -, hxs⟩ | rfl : (∃ (xs : List Expr) (type : Option Expr),
      rs = Parts.optional .type (type.map .expr) ++
        ([(none, .mark .assign), (some .value, .exprs xs)] : Parts) ∧ (∀ x ∈ type, x.fits .plain) ∧
        xs ≠ [] ∧ ∀ x ∈ xs, x.fits .plain) ∨ rs = [] := by
    simpa [exists_optional_iff] using hrs
  · exact yields_of_valueParts (.inl rfl) type (some xs) rfl list hne htype (by simpa using hxs)
  · exact yields_of_valueParts (.inl rfl) none none rfl list hne (by simp) (by simp)

theorem yields_varSpec (h : Fits .varSpec ps) : Yields .varSpec ps := by
  obtain ⟨qs, rs, rfl, hqs, hrs⟩ := h
  have list := Covers.inList hqs (some .name) [.name] (by decide)
  have hne := named_ne_nil_of_covers_sep1 hqs (by
    rintro qs ⟨p, rfl, s, rfl⟩
    simp)
  obtain ⟨rs', x, rfl, hx, ⟨xs, rfl, -, hxs⟩ | rfl⟩ | ⟨xs, rfl, -, hxs⟩ :
      (∃ (rs' : Parts) (x : Expr), rs = (some .type, .expr x) :: rs' ∧ x.fits .plain ∧
        ((∃ xs : List Expr, rs' = [(none, .mark .assign), (some .value, .exprs xs)] ∧ xs ≠ [] ∧
          ∀ x ∈ xs, x.fits .plain) ∨ rs' = [])) ∨
      ∃ xs : List Expr, rs = [(none, .mark .assign), (some .value, .exprs xs)] ∧ xs ≠ [] ∧
        ∀ x ∈ xs, x.fits .plain := by
    simpa using hrs
  · exact yields_of_valueParts (.inr rfl) (some x) (some xs) rfl list hne (by simpa using hx)
      (by simpa using hxs)
  · exact yields_of_valueParts (.inr rfl) (some x) none rfl list hne (by simpa using hx) (by simp)
  · exact yields_of_valueParts (.inr rfl) none (some xs) rfl list hne (by simp) (by simpa using hxs)

theorem yields_varSpecList (h : Fits .varSpecList ps) : Yields .varSpecList ps := by
  obtain ⟨ss, hss, hfits, hwords, -⟩ := Parts.exists_mapM_named Fragment.spec?
    (fun s => ∀ keyword ≠ .type, s.fits keyword = true) Spec.words
    (Covers.inList h none [.valueSpec] (by decide)) (by
      simp only [List.mem_singleton, forall_eq]
      rintro p ⟨names, type, values, rfl, h⟩
      exact ⟨.value names type values, rfl, h, rfl⟩)
  refine ⟨.specs ss, by simp [hss], ⟨ss, rfl, ?_⟩, hwords⟩
  exact fun keyword hk s hs => hfits s hs keyword hk

/-! ### Types -/

theorem yields_of_typeSpec {n : RuleName} (hn : n = .typeSpec ∨ n = .typeAlias) {name : String}
    {typeParams : Option (List Field)} {marks : Parts} {type : Expr}
    (hps : ps = (some .name, .expr (.ident name)) ::
      (Parts.optional .typeParameters (typeParams.map .typeParams) ++
        (marks ++ ([(some .type, .expr type)] : Parts))))
    (hmarks : marks = [] ∨ marks = [(none, .mark .assign)])
    (htypeParams : ∀ fs ∈ typeParams, ∀ f ∈ fs, f.fits .plain) (htype : type.fits .plain) :
    Yields n ps := by
  have htypeParams : ∀ f ∈ typeParams.getD [], f.fits .plain := by
    cases typeParams with
    | none => simp
    | some fs => exact htypeParams fs rfl
  refine ⟨.typeSpec name (typeParams.getD []) (n = .typeAlias) type, ?_, ?_, ?_⟩
  · rcases hn with rfl | rfl <;> rcases hmarks with rfl | rfl <;> cases typeParams <;>
      simp [hps, Parts.get?, Parts.optional?, Fragment.name?, Fragment.expr?, Fragment.typeParams?]
  · rcases hn with rfl | rfl <;> simpa using ⟨htypeParams, htype⟩
  · rcases hmarks with rfl | rfl <;> cases typeParams <;> simp [hps]

theorem exists_parts_of_typeSpec (h : Fits .typeSpec ps) :
    ∃ (type : Expr) (typeParams : Option (List Field)) (name : String),
      ps = (some .name, .expr (.ident name)) ::
        (Parts.optional .typeParameters (typeParams.map .typeParams) ++
          ([(some .type, .expr type)] : Parts)) ∧
        (∀ fs ∈ typeParams, ∀ f ∈ fs, f.fits .plain) ∧ type.fits .plain := by
  simpa [exists_optional_iff] using h

theorem exists_parts_of_typeAlias (h : Fits .typeAlias ps) :
    ∃ (type : Expr) (typeParams : Option (List Field)) (name : String),
      ps = (some .name, .expr (.ident name)) ::
        (Parts.optional .typeParameters (typeParams.map .typeParams) ++
          ([(none, .mark .assign), (some .type, .expr type)] : Parts)) ∧
        (∀ fs ∈ typeParams, ∀ f ∈ fs, f.fits .plain) ∧ type.fits .plain := by
  simpa [exists_optional_iff] using h

theorem yields_typeSpec (h : Fits .typeSpec ps) : Yields .typeSpec ps := by
  obtain ⟨type, typeParams, name, hps, htypeParams, htype⟩ := exists_parts_of_typeSpec h
  exact yields_of_typeSpec (.inl rfl) hps (.inl rfl) htypeParams htype

theorem yields_typeAlias (h : Fits .typeAlias ps) : Yields .typeAlias ps := by
  obtain ⟨type, typeParams, name, hps, htypeParams, htype⟩ := exists_parts_of_typeAlias h
  exact yields_of_typeSpec (.inr rfl) hps (.inr rfl) htypeParams htype

/-! ### General declarations -/

/-- The lines of a declaration, if each part that is no mark is a line. -/
theorem exists_specs (keyword : Keyword) {items : List Category}
    (list : ∀ p ∈ ps, InList none items p)
    (hreads : ∀ c ∈ items, ∀ p : Fragment, p.Is c →
      Reads Fragment.spec? (Spec.fits keyword · = true) Spec.words p) :
    ∃ ss, specs? ps = some ss ∧ (∀ s ∈ ss, s.fits keyword) ∧
      ss.flatMap Spec.words = ps.words := by
  obtain ⟨ss, hss, hfits, hwords, -⟩ := Parts.exists_mapM_named _ _ _ list hreads
  refine ⟨ss, ?_, hfits, hwords⟩
  rw [specs?]
  split
  · next lines hnamed =>
    rw [hnamed] at hss
    simp [Fragment.spec?] at hss
  · exact hss

theorem reads_valueSpec {keyword : Keyword} (hkeyword : keyword ≠ .type) {p : Fragment}
    (h : p.Is .valueSpec) : Reads Fragment.spec? (Spec.fits keyword · = true) Spec.words p := by
  obtain ⟨names, type, values, rfl, h⟩ := h
  exact ⟨.value names type values, rfl, h keyword hkeyword, rfl⟩

theorem yields_constDeclaration (h : Fits .constDeclaration ps) : Yields .constDeclaration ps := by
  obtain ⟨ss, hss, hfits, hwords⟩ :=
    exists_specs .const (Covers.inList h none [.valueSpec] (by decide)) (by
      simp only [List.mem_singleton, forall_eq]
      exact fun p => reads_valueSpec (by decide))
  exact ⟨.decl .const ss, by simp [hss], ⟨ss, rfl, hfits⟩, hwords⟩

theorem yields_typeDeclaration (h : Fits .typeDeclaration ps) : Yields .typeDeclaration ps := by
  obtain ⟨ss, hss, hfits, hwords⟩ :=
    exists_specs .type (Covers.inList h none [.typeSpec] (by decide)) (by
      simp only [List.mem_singleton, forall_eq]
      rintro p ⟨name, typeParams, isAlias, type, rfl, h⟩
      exact ⟨.type name typeParams isAlias type, rfl, h, rfl⟩)
  exact ⟨.decl .type ss, by simp [hss], ⟨ss, rfl, hfits⟩, hwords⟩

theorem yields_varDeclaration (h : Fits .varDeclaration ps) : Yields .varDeclaration ps := by
  obtain ⟨rs, rfl, hrs⟩ : ∃ rs : Parts, ps = (none, .mark .var) :: rs ∧
      Covers (CoversHidden 3) (.alt (.rule .varSpec) (.rule .varSpecList)) none rs := by
    simpa using h
  rcases hrs with ⟨p, rfl, names, type, values, rfl, hspec⟩ | ⟨p, rfl, ss, rfl, hss⟩
  · exact ⟨.decl .var [.value names type values], rfl,
      ⟨_, rfl, by simpa using hspec .var (by decide)⟩, by simp⟩
  · exact ⟨.decl .var ss, rfl, ⟨ss, rfl, hss .var (by decide)⟩, by simp⟩

/-! ### Functions -/

/-- The parts of a function or a method. -/
def funcParts (receivers : Option (List Field)) (name : String) (typeParams : Option (List Field))
    (fs : List Field) (r : Option Fragment) (body : Option (List Stmt)) : Parts :=
  (none, .mark .func) :: (Parts.optional .receiver (receivers.map .params) ++
    (some .name, .expr (.ident name)) ::
      (Parts.optional .typeParameters (typeParams.map .typeParams) ++
        (some .parameters, .params fs) ::
          (Parts.optional .result r ++ Parts.optional .body (body.map .block))))

theorem yields_of_funcParts {n : RuleName} (hn : n = .functionDeclaration ∨ n = .methodDeclaration)
    {receivers typeParams : Option (List Field)} {name : String} {fs : List Field}
    {r : Option Fragment} {body : Option (List Stmt)}
    (hps : ps = funcParts receivers name typeParams fs r body)
    (hreceivers : ∀ fs ∈ receivers, ∀ f ∈ fs, f.fits .parameter)
    (htypeParams : ∀ fs ∈ typeParams, ∀ f ∈ fs, f.fits .plain)
    (hfs : ∀ f ∈ fs, f.fits .parameter) (hr : ∀ p ∈ r, p.IsResult)
    (hbody : ∀ ss ∈ body, ∀ s ∈ ss, s.fits .plain) : Yields n ps := by
  have hreceivers? : ps.optional? .receiver Fragment.params? = some receivers :=
    Parts.optional?_of_part? (c := .params) (by simp [hps, funcParts]) fun _ => rfl
  have hname? : ps.get? .name Fragment.name? = some name :=
    Parts.get?_of_part? (p := .expr (.ident name)) (by simp [hps, funcParts])
  have htypeParams? : ps.optional? .typeParameters Fragment.typeParams? = some typeParams :=
    Parts.optional?_of_part? (c := .typeParams) (by simp [hps, funcParts]) fun _ => rfl
  have hbody? : ps.optional? .body Fragment.block? = some body :=
    Parts.optional?_of_part? (c := .block) (by simp [hps, funcParts]) fun _ => rfl
  have hparams : ps.part? .parameters = some (.params fs) := by simp [hps, funcParts]
  have hresult : ps.part? .result = r := by simp [hps, funcParts]
  obtain ⟨results, hsig, hresults, hwords⟩ := exists_signature hparams hresult hr
  have htypeParams : ∀ f ∈ typeParams.getD [], f.fits .plain := by
    cases typeParams with
    | none => simp
    | some fs => exact htypeParams fs rfl
  refine ⟨.func ⟨receivers, name, .mk (typeParams.getD []) fs results, body⟩, ?_, ?_, ?_⟩
  · rcases hn with rfl | rfl <;>
      simp [hreceivers?, hname?, htypeParams?, hsig, hbody?, FuncType.params, FuncType.results]
  · have shaped : (FuncDecl.mk receivers name (.mk (typeParams.getD []) fs results)
        body).isWellShaped := by
      simpa [FuncDecl.isWellShaped, Option.all_eq_true] using
        ⟨⟨hreceivers, ⟨htypeParams, hfs⟩, hresults⟩, hbody⟩
    rcases hn with rfl | rfl <;> exact ⟨_, rfl, shaped⟩
  · cases receivers <;> cases typeParams <;> cases body <;> simp [hps, funcParts, hwords]

theorem exists_parts_of_functionDeclaration (h : Fits .functionDeclaration ps) :
    ∃ (name : String) (typeParams : Option (List Field)) (fs : List Field) (r : Option Fragment)
      (body : Option (List Stmt)), ps = funcParts none name typeParams fs r body ∧
        (∀ fs ∈ typeParams, ∀ f ∈ fs, f.fits .plain) ∧ (∀ f ∈ fs, f.fits .parameter) ∧
        (∀ p ∈ r, p.IsResult) ∧ ∀ ss ∈ body, ∀ s ∈ ss, s.fits .plain := by
  obtain ⟨rs, body, fs, typeParams, name, hps, htypeParams, hfs, hrs, hbody⟩ :
      ∃ (rs : Parts) (body : Option (List Stmt)) (fs : List Field)
        (typeParams : Option (List Field)) (name : String),
        ps = (none, .mark .func) :: (some .name, .expr (.ident name)) ::
          (Parts.optional .typeParameters (typeParams.map .typeParams) ++
            (some .parameters, .params fs) ::
              (rs ++ Parts.optional .body (body.map .block))) ∧
          (∀ fs ∈ typeParams, ∀ f ∈ fs, f.fits .plain) ∧ (∀ f ∈ fs, f.fits .parameter) ∧
          Covers (CoversHidden 3) resultType none rs ∧ ∀ ss ∈ body, ∀ s ∈ ss, s.fits .plain := by
    simpa [exists_optional_iff] using h
  obtain ⟨r, rfl, hr⟩ := exists_result_of_covers hrs
  exact ⟨name, typeParams, fs, r, body, hps, htypeParams, hfs, hr, hbody⟩

theorem exists_parts_of_methodDeclaration (h : Fits .methodDeclaration ps) :
    ∃ (receivers : List Field) (name : String) (fs : List Field) (r : Option Fragment)
      (body : Option (List Stmt)), ps = funcParts (some receivers) name none fs r body ∧
        (∀ f ∈ receivers, f.fits .parameter) ∧ (∀ f ∈ fs, f.fits .parameter) ∧
        (∀ p ∈ r, p.IsResult) ∧ ∀ ss ∈ body, ∀ s ∈ ss, s.fits .plain := by
  obtain ⟨rs, body, fs, receivers, name, hps, hreceivers, hfs, hrs, hbody⟩ :
      ∃ (rs : Parts) (body : Option (List Stmt)) (fs receivers : List Field) (name : String),
        ps = (none, .mark .func) :: (some .receiver, .params receivers) ::
          (some .name, .expr (.ident name)) :: (some .parameters, .params fs) ::
            (rs ++ Parts.optional .body (body.map .block)) ∧
          (∀ f ∈ receivers, f.fits .parameter) ∧ (∀ f ∈ fs, f.fits .parameter) ∧
          Covers (CoversHidden 3) resultType none rs ∧ ∀ ss ∈ body, ∀ s ∈ ss, s.fits .plain := by
    simpa [exists_optional_iff] using h
  obtain ⟨r, rfl, hr⟩ := exists_result_of_covers hrs
  exact ⟨receivers, name, fs, r, body, hps, hreceivers, hfs, hr, hbody⟩

theorem yields_functionDeclaration (h : Fits .functionDeclaration ps) :
    Yields .functionDeclaration ps := by
  obtain ⟨name, typeParams, fs, r, body, hps, htypeParams, hfs, hr, hbody⟩ :=
    exists_parts_of_functionDeclaration h
  exact yields_of_funcParts (.inl rfl) hps (by simp) htypeParams hfs hr hbody

theorem yields_methodDeclaration (h : Fits .methodDeclaration ps) :
    Yields .methodDeclaration ps := by
  obtain ⟨receivers, name, fs, r, body, hps, hreceivers, hfs, hr, hbody⟩ :=
    exists_parts_of_methodDeclaration h
  exact yields_of_funcParts (.inr rfl) hps (by simpa using hreceivers) (by simp) hfs hr hbody

theorem yields_methodElem (h : Fits .methodElem ps) : Yields .methodElem ps := by
  obtain ⟨rs, fs, name, hps, hfs, hrs⟩ : ∃ (rs : Parts) (fs : List Field) (name : String),
      ps = (some .name, .expr (.ident name)) :: (some .parameters, .params fs) :: rs ∧
        (∀ f ∈ fs, f.fits .parameter) ∧ Covers (CoversHidden 3) resultType none rs := by
    simpa using h
  obtain ⟨r, rfl, hr⟩ := exists_result_of_covers hrs
  have hname? : ps.get? .name Fragment.name? = some name :=
    Parts.get?_of_part? (p := .expr (.ident name)) (by simp [hps])
  have hparams : ps.part? .parameters = some (.params fs) := by simp [hps]
  have hresult : ps.part? .result = r := by simp [hps]
  obtain ⟨results, hsig, hresults, hwords⟩ := exists_signature hparams hresult hr
  refine ⟨.method (.mk [name] (.funcType (.mk [] fs results)) none), ?_, ?_, ?_⟩
  · simp [hname?, hsig]
  · simpa [Expr.fits] using ⟨hfs, hresults⟩
  · simp [hps, hwords]

/-! ### Parameters -/

theorem yields_typeParameterList (h : Fits .typeParameterList ps) :
    Yields .typeParameterList ps := by
  obtain ⟨fs, hfs, hfits, hwords, -⟩ := Parts.exists_mapM_named Fragment.typeParam?
    (fun f => f.fits .plain = true) Field.words (Covers.inList h none [.typeParam] (by decide)) (by
      simp only [List.mem_singleton, forall_eq]
      rintro p ⟨f, rfl, hf⟩
      exact ⟨f, rfl, hf, rfl⟩)
  exact ⟨.typeParams fs, by simp [hfs], ⟨fs, rfl, hfits⟩, hwords⟩

theorem yields_parameterList (h : Fits .parameterList ps) : Yields .parameterList ps := by
  obtain ⟨fs, hfs, hfits, hwords, -⟩ := Parts.exists_mapM_named Fragment.param?
    (fun f => f.fits .parameter = true) Field.words (Covers.inList h none [.param] (by decide)) (by
      simp only [List.mem_singleton, forall_eq]
      rintro p ⟨f, rfl, hf⟩
      exact ⟨f, rfl, hf, rfl⟩)
  exact ⟨.params fs, by simp [hfs], ⟨fs, rfl, hfits⟩, hwords⟩

/-- Names and the type after them. -/
theorem exists_names_type {qs : Parts} (x : Expr) (hps : ps = qs ++ ([(some .type, .expr x)] : Parts))
    (list : ∀ p ∈ qs, InList (some .name) [.name] p) :
    ∃ names, ps.all? .name Fragment.name? = some names ∧ ps.get? .type Fragment.expr? = some x ∧
      ps.words = names ++ x.words := by
  obtain ⟨names, hnames, hwords, -⟩ := exists_names list
  refine ⟨names, ?_, ?_, ?_⟩
  · simp [hps, Parts.all?, hnames]
  · simp [hps, Parts.get?, Parts.part?_eq_none_of_inList list, Fragment.expr?]
  · simp [hps, hwords]

theorem yields_typeParameterDeclaration (h : Fits .typeParameterDeclaration ps) :
    Yields .typeParameterDeclaration ps := by
  obtain ⟨qs, rs, rfl, hqs, p, rfl, x, rfl, hx⟩ := h
  obtain ⟨names, hnames, htype, hwords⟩ :=
    exists_names_type x rfl (Covers.inList hqs (some .name) [.name] (by decide))
  refine ⟨.typeParam (.mk names x none), ?_, by simpa using hx, by simp [hwords]⟩
  simp [hnames, htype]

theorem yields_parameterDeclaration (h : Fits .parameterDeclaration ps) :
    Yields .parameterDeclaration ps := by
  obtain ⟨qs, rs, rfl, hqs, hrs⟩ := h
  obtain ⟨x, rfl, hx⟩ := covers_anyType.mp hrs
  obtain ⟨names, hnames, htype, hwords⟩ :=
    exists_names_type x rfl (Covers.inList hqs (some .name) [.name] (by decide))
  have hx : x.fits .parameter := Expr.fits_of_plain hx (by decide)
  refine ⟨.param (.mk names x none), ?_, by simpa using hx, by simp [hwords]⟩
  simp [hnames, htype]

theorem yields_variadicParameterDeclaration (h : Fits .variadicParameterDeclaration ps) :
    Yields .variadicParameterDeclaration ps := by
  obtain ⟨qs, x, rfl, hqs, hx⟩ : ∃ (qs : Parts) (x : Expr),
      ps = qs ++ ([(none, .mark .ellipsis), (some .type, .expr x)] : Parts) ∧
        ((∃ s, qs = [(some .name, .expr (.ident s))]) ∨ qs = []) ∧ x.fits .plain := by
    simpa using h
  obtain ⟨s, rfl⟩ | rfl := hqs
  · exact ⟨.param (.mk [s] (.ellipsis (some x)) none), rfl, by simpa [Expr.fits] using hx, by simp⟩
  · exact ⟨.param (.mk [] (.ellipsis (some x)) none), rfl, by simpa [Expr.fits] using hx, by simp⟩

/-! ### Fields -/

theorem yields_fieldDeclarationList (h : Fits .fieldDeclarationList ps) :
    Yields .fieldDeclarationList ps := by
  obtain ⟨fs, hfs, hfits, hwords, -⟩ := Parts.exists_mapM_named Fragment.member?
    (fun f => f.fits .plain = true) Field.words (Covers.inList h none [.member] (by decide)) (by
      simp only [List.mem_singleton, forall_eq]
      rintro p ⟨f, rfl, hf⟩
      exact ⟨f, rfl, hf, rfl⟩)
  exact ⟨.members fs, by simp [hfs], ⟨fs, rfl, hfits⟩, hwords⟩

theorem yields_fieldDeclaration (h : Fits .fieldDeclaration ps) : Yields .fieldDeclaration ps := by
  obtain ⟨qs, rs, rfl, hqs, hrs⟩ := h
  obtain ⟨tag, rfl⟩ : ∃ tag : Option String,
      rs = Parts.optional .tag (tag.map (.expr <| .basicLit .string ·)) := by
    obtain ⟨s, rfl⟩ | rfl :
        (∃ s, rs = [(some .tag, .expr (.basicLit .string s))]) ∨ rs = [] := by simpa using hrs
    · exact ⟨some s, rfl⟩
    · exact ⟨none, rfl⟩
  rcases hqs with ⟨ns, ts, rfl, hns, hts⟩ | ⟨ms, ts, rfl, hms, hts⟩
  · -- Fields with names.
    obtain ⟨x, rfl, hx⟩ := covers_anyType.mp hts
    have list := Covers.inList hns (some .name) [.name] (by decide)
    have hne := named_ne_nil_of_covers_sep1 hns (by
      rintro qs ⟨p, rfl, s, rfl⟩
      simp)
    obtain ⟨names, hnames, hwords, hlen⟩ := exists_names list
    have hnames' : names ≠ [] := by
      rw [← List.length_pos_iff, hlen]
      exact List.length_pos_iff.mpr hne
    refine ⟨.member (.mk names x tag), ?_, by simpa using hx, ?_⟩
    · cases tag <;>
        simp [Parts.all?, Parts.get?, Parts.optional?, hnames, Parts.part?_eq_none_of_inList list,
          Fragment.expr?, Fragment.literal?, hnames']
    · cases tag <;> simp [hwords]
  · -- An embedded type, perhaps with a star.
    obtain ⟨x, rfl, hx⟩ : ∃ x : Expr, ts = [(some .type, .expr x)] ∧ x.fits .plain := by
      obtain ⟨s, rfl⟩ | h : (∃ s, ts = [(some .type, .expr (.ident s))]) ∨
          ∃ x : Expr, ts = [(some .type, .expr x)] ∧ x.fits .plain := by simpa using hts
      · exact ⟨.ident s, rfl, rfl⟩
      · exact h
    obtain rfl | rfl : ms = [(none, .mark .star)] ∨ ms = [] := by simpa using hms
    · refine ⟨.member (.mk [] (.star x) tag), ?_, by simpa [Expr.fits] using hx, ?_⟩
      · cases tag <;> rfl
      · cases tag <;> simp
    · refine ⟨.member (.mk [] x tag), ?_, by simpa using hx, ?_⟩
      · cases tag <;> rfl
      · cases tag <;> simp

end GoOutline.Syntax
