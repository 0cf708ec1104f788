import PackageModularity.Proofs.Resolution.DeclaredTypes
import PackageModularity.Proofs.Text.DottedName

/-!
A type that nothing names stays out of every resolution. All names that a type is looked up under
end in a segment of some written name, so two tables that agree on those give the same answers.
-/
namespace PackageModularity

/-- The names written in a receiver, those of methods left out. -/
def Receiver.names : Receiver → List String
  | .this | .super | .call _ | .unknown => []
  | .name s => [s]
  | .field object f => object.names ++ [f]
  | .callOn object _ => object.names
  | .create type => [type]
  | .cast type => [type]

def Mention.names : Mention → List String
  | .supertype name => [name]
  | .call receiver _ => (receiver.map Receiver.names).getD []
  | .field receiver _ => receiver.names

def Scope.names (s : Scope) : List String := s.enclosing ++ s.locals.values

def FileContext.importedNames (c : FileContext) : List String :=
  c.singleImports.keys ++ c.singleImports.values

def TypeSymbol.names (s : TypeSymbol) : List String :=
  s.body ++ s.decl.supertypes ++ s.decl.fields.values ++ s.decl.methods.values.filterMap id ++
    s.context.importedNames

namespace TypeTable

/-- The names in a reference, in its scope, in the imports of its file and in all types of the
table. -/
def writtenNames (t : TypeTable) (u : SourceUnit) (ref : Reference) : List String :=
  ref.mention.names ++ (u.scopes[ref.scope]?.map Scope.names).getD [] ++ u.context.importedNames ++
    t.values.flatMap TypeSymbol.names

def writtenSegments (t : TypeTable) (u : SourceUnit) (ref : Reference) : List String :=
  (t.writtenNames u ref).flatMap Name.segments

/-- The same types under all names with one of these last segments. -/
def AgreeOn (w : List String) (t t' : TypeTable) : Prop :=
  ∀ q, Name.simple q ∈ w → t'.get? q = t.get? q

/-- All segments of these names are among those. -/
def Covers (w : List String) (names : List String) : Prop := ∀ n ∈ names, Name.segments n ⊆ w

variable {t t' : TypeTable} {w : List String} {c : FileContext} {scope : Scope}

theorem covers_append {ms ns : List String} :
    Covers w (ms ++ ns) ↔ Covers w ms ∧ Covers w ns := List.forall_mem_append

theorem Covers.simple {names : List String} (h : Covers w names) {n : String} (hn : n ∈ names) :
    Name.simple n ∈ w := h n hn (Name.simple_mem_segments n)

theorem covers_names {s : TypeSymbol} :
    Covers w s.names ↔ Covers w s.body ∧ Covers w s.decl.supertypes ∧
      Covers w s.decl.fields.values ∧ Covers w (s.decl.methods.values.filterMap id) ∧
      Covers w s.context.importedNames := by
  simp only [TypeSymbol.names, covers_append, and_assoc]

theorem covers_flatMap_segments (names : List String) :
    Covers (names.flatMap Name.segments) names :=
  fun n hn _ hs => List.mem_flatMap.2 ⟨n, hn, hs⟩

theorem findSome?_congr_of_declares {β : Type} {f f' : TypeSymbol → Option β}
    {owners : List TypeSymbol} (ho : ∀ s ∈ owners, t.Declares s)
    (hf : ∀ s, t.Declares s → f' s = f s) : owners.findSome? f' = owners.findSome? f := by
  rw [← List.head?_filterMap, ← List.head?_filterMap]
  exact congrArg _ (List.filterMap_congr fun s hs => hf s (ho s hs))

theorem segments_dottedName {r : Receiver} (hr : Covers w r.names) {d : String}
    (h : r.dottedName? = some d) : Name.segments d ⊆ w := by
  induction r generalizing d with
  | name s =>
    obtain rfl := Option.some.inj h
    exact hr s List.mem_cons_self
  | field object f ih =>
    obtain ⟨front, hfront, rfl⟩ := Option.map_eq_some_iff.1 h
    obtain ⟨hobject, hf⟩ := covers_append.1 hr
    rw [Name.segments_inside]
    exact List.append_subset.2 ⟨ih hobject hfront, hf f List.mem_cons_self⟩
  | _ => simp [Receiver.dottedName?] at h

section
variable (ha : AgreeOn w t t')
include ha

theorem AgreeOn.inside {name : String} (outer : String) (hn : Name.simple name ∈ w) :
    t'.get? (Name.inside outer name) = t.get? (Name.inside outer name) :=
  ha _ (by rwa [Name.simple_inside])

theorem AgreeOn.qualify {name : String} (hn : Name.simple name ∈ w) :
    t'.get? (c.qualify name) = t.get? (c.qualify name) := by
  rw [FileContext.qualify]
  split
  · exact ha _ hn
  · exact ha.inside _ hn

theorem enclosingType?_congr {name : String} {outer : List String} (hn : Name.simple name ∈ w)
    (ho : Covers w outer) : t'.enclosingType? name outer = t.enclosingType? name outer := by
  induction outer with
  | nil => rfl
  | cons o r ih =>
    obtain ⟨hhead, hr⟩ := List.forall_mem_cons.1 ho
    rw [enclosingType?, enclosingType?, ha o (hhead (Name.simple_mem_segments o)), ha.inside o hn,
      ih hr]

theorem importedType?_congr {name : String} (hc : Covers w c.importedNames) :
    t'.importedType? name c = t.importedType? name c := by
  rw [importedType?, importedType?]
  cases hq : c.singleImports.get? name with
  | none => rfl
  | some q =>
    have hmem : q ∈ c.importedNames := List.mem_append_right _ (Dict.mem_values_of_get? hq)
    rw [Option.map_some, Option.map_some, ha q (hc.simple hmem)]

theorem wildcardType?_congr {name : String} (hn : Name.simple name ∈ w) :
    t'.wildcardType? name c = t.wildcardType? name c := by
  have hlook : ∀ p, t'.get? (Name.inside p name) = t.get? (Name.inside p name) :=
    fun p => ha.inside p hn
  simp only [wildcardType?, hlook]

theorem simpleType?_congr {name : String} {outer : List String} (hn : Name.simple name ∈ w)
    (hc : Covers w c.importedNames) (ho : Covers w outer) :
    t'.simpleType? name c outer = t.simpleType? name c outer := by
  rw [simpleType?, simpleType?, enclosingType?_congr ha hn ho, importedType?_congr ha hc,
    ha.qualify hn, wildcardType?_congr ha hn]

theorem memberType?_congr {outer : TypeRef} {rest : String} (hr : Name.simple rest ∈ w) :
    t'.memberType? outer rest = t.memberType? outer rest := by
  cases outer with
  | known s => rw [memberType?, memberType?, ha.inside _ hr]
  | library q => rfl

/-- A written name whose segments are covered means the same type in both tables. -/
theorem type?_congr {name : String} {outer : List String} (hn : Name.segments name ⊆ w)
    (hc : Covers w c.importedNames) (ho : Covers w outer) :
    t'.type? name c outer = t.type? name c outer := by
  have hlast : Name.simple name ∈ w := hn (Name.simple_mem_segments name)
  rw [type?, type?]
  cases hsplit : Name.splitFirst? name with
  | none => exact simpleType?_congr ha hlast hc ho
  | some parts =>
    obtain ⟨head, rest⟩ := parts
    obtain ⟨hdot, rfl⟩ := Name.eq_of_splitFirst? hsplit
    have hhead : Name.simple head ∈ w := by
      refine hn ?_
      rw [Name.segments_inside, Name.segments_of_no_dot hdot, Name.simple_of_no_dot hdot]
      exact List.mem_cons_self
    have hrest : Name.simple rest ∈ w := by rwa [Name.simple_inside] at hlast
    simp only [simpleType?_congr ha hhead hc ho, memberType?_congr ha hrest, ha _ hlast]

end

section
variable {s : TypeSymbol} (ha : AgreeOn w t t') (ht : ∀ s, t.Declares s → Covers w s.names)
include ha ht

theorem typeInBody?_congr (hs : t.Declares s) {name : String} (hn : Name.segments name ⊆ w) :
    t'.typeInBody? s name = t.typeInBody? s name := by
  obtain ⟨hbody, -, -, -, himports⟩ := covers_names.1 (ht s hs)
  exact type?_congr ha hn himports hbody

theorem supertypes_congr (hs : t.Declares s) : t'.supertypes s = t.supertypes s := by
  obtain ⟨hbody, hsupers, -, -, himports⟩ := covers_names.1 (ht s hs)
  refine List.filterMap_congr fun name hname => ?_
  exact type?_congr ha (hsupers name hname) himports (List.forall_mem_cons.1 hbody).2

/-- Both walks up from the same types of the table wait for the same types at every step. -/
theorem visit_congr {n : Nat} {seen : List String} {waiting : List TypeSymbol}
    (hw : ∀ s ∈ waiting, t.Declares s) : t'.visit n seen waiting = t.visit n seen waiting := by
  induction n generalizing seen waiting with
  | zero => rfl
  | succ n ih =>
    rw [visit, visit]
    have hsub : waiting.dropWhile (fun s => seen.contains s.qualifiedName) ⊆ waiting :=
      List.dropWhile_subset _
    cases hd : waiting.dropWhile fun s => seen.contains s.qualifiedName with
    | nil => rfl
    | cons s r =>
      rw [hd] at hsub
      have hparents : t'.parents s = t.parents s := by
        rw [parents, parents, supertypes_congr ha ht (hw s (hsub List.mem_cons_self))]
      have hnext : ∀ u ∈ r ++ t.parents s, t.Declares u := by
        intro u hu
        rcases List.mem_append.1 hu with hu | hu
        · exact hw u (hsub (List.mem_cons_of_mem _ hu))
        · exact declares_of_parents hu
      simp only [hparents, ih hnext]

theorem findMember_congr {β : Type} {probe : TypeDecl → Option β} (hs : t.Declares s) :
    t'.findMember probe s = t.findMember probe s := by
  have hvisit : t'.hierarchy s = t.hierarchy s :=
    visit_congr ha ht fun u hu => List.mem_singleton.1 hu ▸ hs
  rw [findMember, findMember, hvisit]

theorem findField_congr (hs : t.Declares s) (name : String) :
    t'.findField name s = t.findField name s := findMember_congr ha ht hs

theorem methodIn?_congr {owners : List TypeSymbol} (ho : ∀ s ∈ owners, t.Declares s)
    (name : String) : t'.methodIn? owners name = t.methodIn? owners name :=
  findSome?_congr_of_declares ho fun _ hs => findMember_congr ha ht hs

theorem fieldTypeInBody?_congr {owner : TypeSymbol} (ho : t.Declares owner) {name type : String}
    (h : t.findField name owner = some (s, type)) :
    t'.typeInBody? s type = t.typeInBody? s type := by
  obtain ⟨hs, htype⟩ := findMember_sound ho h
  obtain ⟨-, -, hfields, -, -⟩ := covers_names.1 (ht s hs)
  exact typeInBody?_congr ha ht hs (hfields type (Dict.mem_values_of_get? htype))

theorem resultType?_congr {owners : List TypeSymbol} (ho : ∀ s ∈ owners, t.Declares s)
    {name : String} {result : Option String} (h : t.methodIn? owners name = some (s, result)) :
    t'.resultType? s result = t.resultType? s result := by
  obtain ⟨hs, hresult⟩ := methodIn?_sound ho h
  cases result with
  | none => rfl
  | some type =>
    obtain ⟨-, -, -, hmethods, -⟩ := covers_names.1 (ht s hs)
    have hwritten : type ∈ s.decl.methods.values.filterMap id :=
      List.mem_filterMap.2 ⟨some type, Dict.mem_values_of_get? hresult, rfl⟩
    exact typeInBody?_congr ha ht hs (hmethods type hwritten)

end

section
variable (ha : AgreeOn w t t') (ht : ∀ s, t.Declares s → Covers w s.names)
  (hc : Covers w c.importedNames) (hs : Covers w scope.names)
include ha

include hs in
theorem enclosingSymbols_congr : t'.enclosingSymbols scope = t.enclosingSymbols scope :=
  List.filterMap_congr fun q hq => ha q ((covers_append.1 hs).1.simple hq)

include hs in
theorem currentType?_congr : t'.currentType? scope = t.currentType? scope := by
  rw [currentType?, currentType?]
  cases hq : scope.enclosing.head? with
  | none => rfl
  | some q => exact ha q ((covers_append.1 hs).1.simple (List.mem_of_mem_head? hq))

include ht hs in
theorem currentSupertypes_congr : t'.currentSupertypes scope = t.currentSupertypes scope := by
  rw [currentSupertypes, currentSupertypes, currentType?_congr ha hs]
  cases hq : t.currentType? scope with
  | none => rfl
  | some s =>
    rw [Option.map_some, Option.map_some, supertypes_congr ha ht (declares_of_currentType? hq)]

include hc hs in
theorem writtenType?_congr {name : String} (hn : Name.segments name ⊆ w) :
    t'.writtenType? c scope name = t.writtenType? c scope name :=
  type?_congr ha hn hc (covers_append.1 hs).1

include ht hc hs in
theorem nameType?_congr {name : String} (hn : Name.segments name ⊆ w) :
    t'.nameType? c scope name = t.nameType? c scope name := by
  have ho : ∀ s ∈ t.enclosingSymbols scope, t.Declares s := fun _ => declares_of_enclosingSymbols
  have hfield : (t.enclosingSymbols scope).findSome? (t'.findField name) =
      (t.enclosingSymbols scope).findSome? (t.findField name) :=
    findSome?_congr_of_declares ho fun _ hs => findField_congr ha ht hs name
  rw [nameType?, nameType?]
  cases hlocal : scope.locals.get? name with
  | some type =>
    have hlocals : Covers w scope.locals.values := (covers_append.1 hs).2
    exact writtenType?_congr ha hc hs (hlocals type (Dict.mem_values_of_get? hlocal))
  | none =>
    simp only [enclosingSymbols_congr ha hs, hfield]
    cases hfound : (t.enclosingSymbols scope).findSome? (t.findField name) with
    | some p =>
      obtain ⟨o, hmem, hfind⟩ := List.exists_of_findSome?_eq_some hfound
      exact fieldTypeInBody?_congr ha ht (ho o hmem) hfind
    | none => exact writtenType?_congr ha hc hs hn

include ht hc hs in
theorem fieldType?_congr {object : Option TypeRef} {name : String} {dotted : Option String}
    (ho : ∀ s, object = some (.known s) → t.Declares s)
    (hd : ∀ d, dotted = some d → Name.segments d ⊆ w) :
    t'.fieldType? c scope object name dotted = t.fieldType? c scope object name dotted := by
  have hdotted : dotted.bind (t'.writtenType? c scope) = dotted.bind (t.writtenType? c scope) := by
    cases dotted with
    | none => rfl
    | some d => exact writtenType?_congr ha hc hs (hd d rfl)
  rw [fieldType?, fieldType?, hdotted]
  cases hobject : object.bind TypeRef.known? with
  | none => rfl
  | some s =>
    obtain ⟨ref, href, hknown⟩ := Option.bind_eq_some_iff.1 hobject
    have hs' : t.Declares s := ho s (href.trans (congrArg _ (known_of_known? hknown)))
    simp only [Option.bind_some, findField_congr ha ht hs']
    cases hfound : t.findField name s with
    | none => rfl
    | some p => exact fieldTypeInBody?_congr ha ht hs' hfound

include ht hc hs in
theorem receiverTypes_congr {r : Receiver} (hr : Covers w r.names) :
    t'.receiverTypes c scope r = t.receiverTypes c scope r := by
  induction r with
  | this => rw [receiverTypes, receiverTypes, currentType?_congr ha hs]
  | super => rw [receiverTypes, receiverTypes, currentSupertypes_congr ha ht hs]
  | name s =>
    rw [receiverTypes, receiverTypes, nameType?_congr ha ht hc hs (hr s List.mem_cons_self)]
  | field object f ih =>
    have hobject := (covers_append.1 hr).1
    have hknown : ∀ s, (t.receiverTypes c scope object).head? = some (.known s) → t.Declares s :=
      fun s h => declares_of_receiverTypes (List.mem_of_mem_head? h)
    rw [receiverTypes, receiverTypes, ih hobject,
      fieldType?_congr ha ht hc hs hknown fun _ => segments_dottedName hr]
  | call m =>
    have ho : ∀ s ∈ t.enclosingSymbols scope, t.Declares s := fun _ => declares_of_enclosingSymbols
    rw [receiverTypes, receiverTypes, enclosingSymbols_congr ha hs, methodIn?_congr ha ht ho]
    cases hfound : t.methodIn? (t.enclosingSymbols scope) m with
    | none => rfl
    | some p => rw [Option.bind_some, Option.bind_some, resultType?_congr ha ht ho hfound]
  | callOn object m ih =>
    have ho : ∀ s ∈ (t.receiverTypes c scope object).filterMap TypeRef.known?, t.Declares s :=
      fun _ => declares_of_known_receiver
    rw [receiverTypes, receiverTypes, ih hr, methodIn?_congr ha ht ho]
    cases hfound : t.methodIn? ((t.receiverTypes c scope object).filterMap TypeRef.known?) m with
    | none => rfl
    | some p => rw [Option.bind_some, Option.bind_some, resultType?_congr ha ht ho hfound]
  | create type =>
    rw [receiverTypes, receiverTypes, writtenType?_congr ha hc hs (hr type List.mem_cons_self)]
  | cast type =>
    rw [receiverTypes, receiverTypes, writtenType?_congr ha hc hs (hr type List.mem_cons_self)]
  | unknown => rfl

include ht hc hs in
theorem callTarget?_congr {receiver : Option Receiver} {name : String}
    (hr : Covers w ((receiver.map Receiver.names).getD [])) :
    t'.callTarget? c scope receiver name = t.callTarget? c scope receiver name := by
  cases receiver with
  | none =>
    rw [callTarget?, callTarget?, enclosingSymbols_congr ha hs,
      methodIn?_congr ha ht fun _ => declares_of_enclosingSymbols]
  | some r =>
    have htypes : t'.receiverTypes c scope r = t.receiverTypes c scope r :=
      receiverTypes_congr ha ht hc hs hr
    have htype : t'.receiverType? c scope r = t.receiverType? c scope r :=
      congrArg List.head? htypes
    have ho : ∀ s ∈ (t.receiverTypes c scope r).filterMap TypeRef.known?, t.Declares s :=
      fun _ => declares_of_known_receiver
    simp only [callTarget?, htypes, methodIn?_congr ha ht ho]
    cases t.methodIn? ((t.receiverTypes c scope r).filterMap TypeRef.known?) name with
    | some p => rfl
    | none =>
      cases r with
      | super => rfl
      | _ => exact congrArg (Option.bind · libraryOf?) htype

include ht in
theorem fieldTarget?_congr {name : String} {refs : List TypeRef}
    (hrefs : ∀ s, .known s ∈ refs → t.Declares s) :
    t'.fieldTarget? name refs = t.fieldTarget? name refs := by
  induction refs with
  | nil => rfl
  | cons ref refs ih =>
    cases ref with
    | known s =>
      rw [fieldTarget?, fieldTarget?, findField_congr ha ht (hrefs s List.mem_cons_self),
        ih fun u hu => hrefs u (List.mem_cons_of_mem _ hu)]
    | library q => rfl

include ht hc hs in
theorem mentionTarget?_congr {m : Mention} (hm : Covers w m.names) :
    t'.mentionTarget? c scope m = t.mentionTarget? c scope m := by
  cases m with
  | supertype name =>
    rw [mentionTarget?, mentionTarget?, writtenType?_congr ha hc hs (hm name List.mem_cons_self)]
  | call receiver name => exact callTarget?_congr ha ht hc hs hm
  | field receiver name =>
    rw [mentionTarget?, mentionTarget?, receiverTypes_congr ha ht hc hs hm]
    exact fieldTarget?_congr ha ht fun _ => declares_of_receiverTypes

end

theorem agreeOn_declare (t : TypeTable) (d : TypeDecl) (context : FileContext)
    (h : Name.simple d.qualifiedName ∉ w) : AgreeOn w t (t.declare d context) := by
  intro q hq
  rw [declare, Dict.get?_insert, if_neg]
  rintro rfl
  exact h hq

/-- A type whose last segment stands in no written name changes the target of no reference. -/
theorem resolve_declare_of_unwritten (t : TypeTable) (u : SourceUnit) (ref : Reference)
    (d : TypeDecl) (context : FileContext)
    (h : Name.simple d.qualifiedName ∉ t.writtenSegments u ref) :
    (t.declare d context).resolve u ref = t.resolve u ref := by
  have ha : AgreeOn (t.writtenSegments u ref) t (t.declare d context) :=
    agreeOn_declare t d context h
  have hnames : Covers (t.writtenSegments u ref) (t.writtenNames u ref) :=
    covers_flatMap_segments _
  rw [writtenNames, covers_append, covers_append, covers_append] at hnames
  obtain ⟨⟨⟨hm, hscope⟩, hc⟩, htypes⟩ := hnames
  have ht : ∀ s, t.Declares s → Covers (t.writtenSegments u ref) s.names := by
    rintro s ⟨q, hq⟩ n hn
    exact htypes n (List.mem_flatMap.2 ⟨s, Dict.mem_values_of_get? hq, hn⟩)
  rw [resolve, resolve]
  cases hs : u.scopes[ref.scope]? with
  | none => rfl
  | some scope =>
    rw [hs] at hscope
    exact mentionTarget?_congr ha ht hc hscope hm

def pageFile : SourceUnit where
  path := Path.ofText "app/Page.java"
  context := ⟨some "app", Dict.empty, ["lib"]⟩
  types := [⟨"app.Page", [], ["Sheet"], Dict.empty, Dict.empty⟩]
  scopes := [Scope.empty, ⟨["app.Page"], Dict.ofList [("p", "Page")]⟩]
  references := [⟨.call (some (.field (.name "p") "title")) "trim", 1⟩]

def sheetFile : SourceUnit where
  path := Path.ofText "lib/Sheet.java"
  context := ⟨some "lib", Dict.empty, []⟩
  types := [⟨"lib.Sheet", [], [], Dict.ofList [("title", "Text")], Dict.empty⟩,
    ⟨"lib.Text", [], [], Dict.empty, Dict.ofList [("trim", none)]⟩]
  scopes := [Scope.empty]
  references := []

/-- The type put in lies in the package imported, has the method and extends a type of the walk. -/
def footer : TypeDecl := ⟨"lib.Footer", [], ["Sheet"], Dict.empty, Dict.ofList [("trim", none)]⟩

theorem resolve_declare_footer :
    let t := ofUnits [pageFile, sheetFile]
    let ref : Reference := ⟨.call (some (.field (.name "p") "title")) "trim", 1⟩
    t.get? footer.qualifiedName = none ∧
    Name.simple footer.qualifiedName ∉ t.writtenSegments pageFile ref ∧
    t.resolve pageFile ref = some ⟨"lib", .source⟩ ∧
    (t.declare footer sheetFile.context).resolve pageFile ref = some ⟨"lib", .source⟩ := by
  have hnew : Name.simple footer.qualifiedName ∉
      (ofUnits [pageFile, sheetFile]).writtenSegments pageFile
        ⟨.call (some (.field (.name "p") "title")) "trim", 1⟩ := by decide +kernel
  exact ⟨rfl, hnew, rfl, resolve_declare_of_unwritten _ _ _ footer sheetFile.context hnew⟩

end TypeTable

end PackageModularity
