import PackageModularity.Proofs.Resolution.LastDeclaration
import PackageModularity.Proofs.Text.DottedName
import PackageModularity.Resolution.ReferenceTarget

/-!
Every source type that a name, a receiver or a walk up the hierarchy leads to is a type of the
table, and a member is found in a type that has it.
-/
namespace PackageModularity.TypeTable

variable {t : TypeTable} {c : FileContext} {scope : Scope}

def Declares (t : TypeTable) (s : TypeSymbol) : Prop := ∃ q, t.get? q = some s

theorem Keyed.get? {s : TypeSymbol} (hk : t.Keyed) (hs : t.Declares s) :
    t.get? s.qualifiedName = some s := by
  obtain ⟨q, hq⟩ := hs
  rw [hk q s hq, hq]

theorem Keyed.eq_of_name {u v : TypeSymbol} (hk : t.Keyed) (hu : t.Declares u) (hv : t.Declares v)
    (h : u.qualifiedName = v.qualifiedName) : u = v := by
  have hu := hk.get? hu
  rw [h, hk.get? hv] at hu
  exact (Option.some.inj hu).symm

/-- A type of the sources is what the table has under this name, a library type has it. -/
def StandsFor (t : TypeTable) : TypeRef → String → Prop
  | .known s, q => t.get? q = some s
  | .library q', q => q' = q

theorem endsIn_qualify (c : FileContext) (name : String) : Name.EndsIn (c.qualify name) name := by
  rw [FileContext.qualify]
  split
  · exact .inl rfl
  · exact Name.endsIn_inside _ _

/-! Which name each place of lookup asks the table for. -/

theorem enclosingType?_found {name : String} {outer : List String} {s : TypeSymbol}
    (h : t.enclosingType? name outer = some s) : ∃ q, t.get? q = some s ∧ Name.EndsIn q name := by
  induction outer with
  | nil => simp [enclosingType?] at h
  | cons o r ih =>
    simp only [enclosingType?, Option.orElse_eq_orElse, Option.orElse_eq_or,
      Option.or_eq_some_iff] at h
    rcases h with h | ⟨-, h | ⟨-, h⟩⟩
    · split at h
      · rename_i hname
        exact ⟨o, h, hname ▸ Name.endsIn_simple o⟩
      · simp at h
    · exact ⟨_, h, Name.endsIn_inside o name⟩
    · exact ih h

theorem importedType?_found {name : String} {r : TypeRef} (h : t.importedType? name c = some r) :
    ∃ q, c.singleImports.get? name = some q ∧ t.StandsFor r q := by
  obtain ⟨q, hq, rfl⟩ := Option.map_eq_some_iff.1 h
  refine ⟨q, hq, ?_⟩
  cases hs : t.get? q with
  | none => rfl
  | some s => exact hs

theorem wildcardType?_found {name : String} {s : TypeSymbol} (h : t.wildcardType? name c = some s) :
    ∃ q, t.get? q = some s ∧ Name.EndsIn q name := by
  obtain ⟨p, -, hp⟩ := List.exists_of_findSome?_eq_some h
  exact ⟨_, hp, Name.endsIn_inside p name⟩

/-- Only an import can lead to a name that does not end in the one written. -/
theorem simpleType?_found {name : String} {outer : List String} {r : TypeRef}
    (h : t.simpleType? name c outer = some r) :
    ∃ q, t.StandsFor r q ∧ (Name.EndsIn q name ∨ c.singleImports.get? name = some q) := by
  simp only [simpleType?, Option.orElse_eq_orElse, Option.orElse_eq_or,
    Option.or_eq_some_iff] at h
  rcases h with h | ⟨-, h | ⟨-, h | ⟨-, h⟩⟩⟩
  · obtain ⟨s, hs, rfl⟩ := Option.map_eq_some_iff.1 h
    obtain ⟨q, hq, hends⟩ := enclosingType?_found hs
    exact ⟨q, hq, .inl hends⟩
  · obtain ⟨q, hq, hr⟩ := importedType?_found h
    exact ⟨q, hr, .inr hq⟩
  · obtain ⟨s, hs, rfl⟩ := Option.map_eq_some_iff.1 h
    exact ⟨_, hs, .inl (endsIn_qualify c name)⟩
  · obtain ⟨s, hs, rfl⟩ := Option.map_eq_some_iff.1 h
    obtain ⟨q, hq, hends⟩ := wildcardType?_found hs
    exact ⟨q, hq, .inl hends⟩

theorem known_of_map {o : Option TypeSymbol} {s : TypeSymbol}
    (h : o.map TypeRef.known = some (.known s)) : o = some s := by
  obtain ⟨s', rfl, hs⟩ := Option.map_eq_some_iff.1 h
  rw [TypeRef.known.inj hs]

theorem declares_of_simpleType? {name : String} {outer : List String} {s : TypeSymbol}
    (h : t.simpleType? name c outer = some (.known s)) : t.Declares s := by
  obtain ⟨q, hq, -⟩ := simpleType?_found h
  exact ⟨q, hq⟩

theorem declares_of_memberType? {outer : TypeRef} {rest : String} {s : TypeSymbol}
    (h : t.memberType? outer rest = some (.known s)) : t.Declares s := by
  cases outer with
  | known o => exact ⟨_, known_of_map h⟩
  | library q => simp [memberType?] at h

theorem declares_of_type? {name : String} {outer : List String} {s : TypeSymbol}
    (h : t.type? name c outer = some (.known s)) : t.Declares s := by
  simp only [type?] at h
  split at h
  · exact declares_of_simpleType? h
  · split at h
    · exact declares_of_memberType? h
    · exact ⟨_, known_of_map h⟩

theorem declares_of_supertypes {s u : TypeSymbol} (h : .known u ∈ t.supertypes s) :
    t.Declares u := by
  obtain ⟨name, -, hu⟩ := List.mem_filterMap.1 h
  exact declares_of_type? hu

theorem known_of_known? {r : TypeRef} {s : TypeSymbol} (h : r.known? = some s) : r = .known s := by
  cases r with
  | known s' => rw [Option.some.inj h]
  | library q => simp [TypeRef.known?] at h

theorem declares_of_parents {s u : TypeSymbol} (h : u ∈ t.parents s) : t.Declares u := by
  obtain ⟨r, hr, hu⟩ := List.mem_filterMap.1 h
  exact declares_of_supertypes (known_of_known? hu ▸ hr)

theorem of_mem_visit {P : TypeSymbol → Prop} (hstep : ∀ u v, P u → v ∈ t.parents u → P v) {n : Nat}
    {seen : List String} {waiting : List TypeSymbol} (h : ∀ s ∈ waiting, P s) :
    ∀ s ∈ t.visit n seen waiting, P s := by
  induction n generalizing seen waiting with
  | zero => simp [visit]
  | succ n ih =>
    rw [visit]
    have hsub : waiting.dropWhile (fun s => seen.contains s.qualifiedName) ⊆ waiting :=
      List.dropWhile_subset _
    split
    · simp
    · rename_i s r hw
      rw [hw] at hsub
      intro u hu
      rcases List.mem_cons.1 hu with rfl | hu
      · exact h _ (hsub List.mem_cons_self)
      · refine ih ?_ u hu
        intro v hv
        rcases List.mem_append.1 hv with hv | hv
        · exact h v (hsub (List.mem_cons_of_mem _ hv))
        · exact hstep s v (h s (hsub List.mem_cons_self)) hv

theorem of_mem_hierarchy {P : TypeSymbol → Prop} (hstep : ∀ u v, P u → v ∈ t.parents u → P v)
    {s u : TypeSymbol} (hs : P s) (h : u ∈ t.hierarchy s) : P u := by
  refine of_mem_visit hstep ?_ u h
  intro v hv
  rwa [List.mem_singleton.1 hv]

theorem declares_of_hierarchy {s u : TypeSymbol} (hs : t.Declares s) (h : u ∈ t.hierarchy s) :
    t.Declares u :=
  of_mem_hierarchy (fun _ _ _ => declares_of_parents) hs h

theorem findMember_sound {β : Type} {probe : TypeDecl → Option β} {s u : TypeSymbol} {b : β}
    (hs : t.Declares s) (h : t.findMember probe s = some (u, b)) :
    t.Declares u ∧ probe u.decl = some b := by
  obtain ⟨v, hv, hp⟩ := List.exists_of_findSome?_eq_some h
  obtain ⟨b', hb, he⟩ := Option.map_eq_some_iff.1 hp
  obtain ⟨rfl, rfl⟩ := Prod.mk.inj he
  exact ⟨declares_of_hierarchy hs hv, hb⟩

theorem declares_of_currentType? {s : TypeSymbol} (h : t.currentType? scope = some s) :
    t.Declares s := by
  obtain ⟨q, -, hq⟩ := Option.bind_eq_some_iff.1 h
  exact ⟨q, hq⟩

theorem declares_of_currentSupertypes {s : TypeSymbol} (h : .known s ∈ t.currentSupertypes scope) :
    t.Declares s := by
  rw [currentSupertypes] at h
  cases hc : t.currentType? scope with
  | none => simp [hc] at h
  | some u =>
    simp only [hc, Option.map_some, Option.getD_some] at h
    exact declares_of_supertypes h

theorem declares_of_enclosingSymbols {s : TypeSymbol} (h : s ∈ t.enclosingSymbols scope) :
    t.Declares s := by
  obtain ⟨q, -, hq⟩ := List.mem_filterMap.1 h
  exact ⟨q, hq⟩

theorem declares_of_resultType? {owner s : TypeSymbol} {written : Option String}
    (h : t.resultType? owner written = some (.known s)) : t.Declares s := by
  obtain ⟨name, -, hn⟩ := Option.bind_eq_some_iff.1 h
  exact declares_of_type? hn

theorem declares_of_nameType? {name : String} {s : TypeSymbol}
    (h : t.nameType? c scope name = some (.known s)) : t.Declares s := by
  simp only [nameType?] at h
  split at h
  · exact declares_of_type? h
  · split at h
    · exact declares_of_type? h
    · exact declares_of_type? h

theorem declares_of_fieldType? {object : Option TypeRef} {name : String} {dotted : Option String}
    {s : TypeSymbol} (h : t.fieldType? c scope object name dotted = some (.known s)) :
    t.Declares s := by
  simp only [fieldType?] at h
  split at h
  · exact declares_of_type? h
  · obtain ⟨d, -, hd⟩ := Option.bind_eq_some_iff.1 h
    exact declares_of_type? hd

/-- No induction on the receiver: each shape ends in a lookup of its own. -/
theorem declares_of_receiverTypes {r : Receiver} {s : TypeSymbol}
    (h : .known s ∈ t.receiverTypes c scope r) : t.Declares s := by
  cases r with
  | this =>
    rw [receiverTypes, Option.mem_toList] at h
    exact declares_of_currentType? (known_of_map h)
  | super => exact declares_of_currentSupertypes (by rwa [receiverTypes] at h)
  | name x =>
    rw [receiverTypes, Option.mem_toList] at h
    exact declares_of_nameType? h
  | field object f =>
    rw [receiverTypes, Option.mem_toList] at h
    exact declares_of_fieldType? h
  | call m =>
    rw [receiverTypes, Option.mem_toList] at h
    obtain ⟨p, -, hp⟩ := Option.bind_eq_some_iff.1 h
    exact declares_of_resultType? hp
  | callOn object m =>
    rw [receiverTypes, Option.mem_toList] at h
    obtain ⟨p, -, hp⟩ := Option.bind_eq_some_iff.1 h
    exact declares_of_resultType? hp
  | create type =>
    rw [receiverTypes, Option.mem_toList] at h
    exact declares_of_type? h
  | cast type =>
    rw [receiverTypes, Option.mem_toList] at h
    exact declares_of_type? h
  | unknown => simp [receiverTypes] at h

theorem declares_of_known_receiver {r : Receiver} {s : TypeSymbol}
    (h : s ∈ (t.receiverTypes c scope r).filterMap TypeRef.known?) : t.Declares s := by
  obtain ⟨ref, href, hs⟩ := List.mem_filterMap.1 h
  exact declares_of_receiverTypes (known_of_known? hs ▸ href)

theorem methodIn?_sound {owners : List TypeSymbol} {name : String} {s : TypeSymbol}
    {result : Option String} (ho : ∀ o ∈ owners, t.Declares o)
    (h : t.methodIn? owners name = some (s, result)) :
    t.Declares s ∧ s.decl.methods.get? name = some result := by
  obtain ⟨o, hmem, hm⟩ := List.exists_of_findSome?_eq_some h
  exact findMember_sound (ho o hmem) hm

theorem declares_of_methodIn? {owners : List TypeSymbol} {name : String} {s : TypeSymbol}
    {result : Option String} (ho : ∀ o ∈ owners, t.Declares o)
    (h : t.methodIn? owners name = some (s, result)) :
    ∃ u, t.Declares u ∧ u.package = (TypeRef.known s).declaration.package ∧
      (u.decl.methods.get? name).isSome := by
  obtain ⟨hs, hm⟩ := methodIn?_sound ho h
  exact ⟨s, hs, rfl, by rw [hm]; rfl⟩

theorem origin_of_libraryOf? {ref : TypeRef} {d : Declaration} (h : libraryOf? ref = some d) :
    d.origin = .library := by
  cases ref with
  | known s => simp [libraryOf?] at h
  | library q =>
    cases Option.some.inj h
    rfl

theorem callTarget?_sound {receiver : Option Receiver} {name : String} {d : Declaration}
    (h : t.callTarget? c scope receiver name = some d) (hd : d.origin = .source) :
    ∃ s, t.Declares s ∧ s.package = d.package ∧ (s.decl.methods.get? name).isSome := by
  cases receiver with
  | none =>
    simp only [callTarget?] at h
    split at h
    · rename_i hm
      cases Option.some.inj h
      exact declares_of_methodIn? (fun _ ho => declares_of_enclosingSymbols ho) hm
    · simp at h
  | some r =>
    simp only [callTarget?] at h
    split at h
    · rename_i hm
      cases Option.some.inj h
      exact declares_of_methodIn? (fun _ ho => declares_of_known_receiver ho) hm
    · -- what is left is a library type, which is no source
      split at h
      · simp at h
      · simp at h
      · obtain ⟨ref, -, hlib⟩ := Option.bind_eq_some_iff.1 h
        rw [origin_of_libraryOf? hlib] at hd
        simp at hd

theorem fieldTarget?_sound {name : String} {refs : List TypeRef} {d : Declaration}
    (hrefs : ∀ s, .known s ∈ refs → t.Declares s)
    (h : t.fieldTarget? name refs = some d) (hd : d.origin = .source) :
    ∃ s, t.Declares s ∧ s.package = d.package ∧ (s.decl.fields.get? name).isSome := by
  induction refs with
  | nil => simp [fieldTarget?] at h
  | cons ref refs ih =>
    cases ref with
    | known s =>
      simp only [fieldTarget?] at h
      split at h
      · rename_i owner type hf
        obtain ⟨ho, hfield⟩ := findMember_sound (hrefs s List.mem_cons_self) hf
        cases Option.some.inj h
        exact ⟨owner, ho, rfl, by rw [hfield]; rfl⟩
      · exact ih (fun u hu => hrefs u (List.mem_cons_of_mem _ hu)) h
    | library q =>
      cases Option.some.inj h
      simp [TypeRef.declaration] at hd

end PackageModularity.TypeTable
