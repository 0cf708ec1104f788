import PackageModularity.Proofs.Source.PairedBrackets
import PackageModularity.Text.Name

/-!
Types as they are written: names with dots between them, a text in angle brackets behind any of them,
array brackets and an ellipsis at the end, and white space between any two tokens. Erasing leaves the
names with dots between them, and erasing once more changes nothing.
-/
namespace PackageModularity

/-! ### Tokens and white space -/

/-- The text has these tokens in this order, with any white space before, between and behind them. -/
inductive Spaced : List (List Char) → List Char → Prop where
  | nil : Spaced [] []
  | token {token : List Char} {tokens : List (List Char)} {r : List Char} (h : Spaced tokens r) :
      Spaced (token :: tokens) (token ++ r)
  | blank {tokens : List (List Char)} {c : Char} {r : List Char} (hc : isBlank c)
      (h : Spaced tokens r) : Spaced tokens (c :: r)

theorem Spaced.dropArguments_eq {tokens : List (List Char)} {text : List Char}
    (h : Spaced tokens text) (hpaired : ∀ token ∈ tokens, Paired token) :
    dropArguments 0 text = tokens.flatMap (dropArguments 0) := by
  induction h with
  | nil => rfl
  | token _ ih =>
    obtain ⟨htoken, hrest⟩ := List.forall_mem_cons.1 hpaired
    rw [htoken.dropArguments_append, ih hrest, List.flatMap_cons]
  | blank hc _ ih => rw [dropArguments_blank hc, ih hpaired]

/-! ### The parts of a type -/

structure IsPartName (name : String) : Prop where
  ne_empty : name ≠ ""
  plain : ∀ c ∈ name.toList, isBlank c = false ∧ c ∉ ['.', '<', '>', '[', ']']

instance (name : String) : Decidable (IsPartName name) :=
  decidable_of_iff (name ≠ "" ∧
      name.toList.all fun c => isBlank c = false ∧ c ∉ ['.', '<', '>', '[', ']'])
    ⟨fun h => ⟨h.1, by simpa using h.2⟩, fun h => ⟨h.ne_empty, by simpa using h.plain⟩⟩

theorem IsPartName.not_mem {name : String} (h : IsPartName name) {c : Char}
    (hc : c ∈ ['.', '<', '>', '[', ']']) : c ∉ name.toList :=
  fun hmem => (h.plain c hmem).2 hc

/-- A name, and the text between the angle brackets behind it, if there are any. -/
structure TypePart where
  name : String
  arguments? : Option (List Char)
  isPartName : IsPartName name
  paired : ∀ text ∈ arguments?, Paired text

namespace TypePart

def tokens (p : TypePart) : List (List Char) :=
  p.name.toList :: (p.arguments?.map fun text => '<' :: text ++ ['>']).toList

theorem paired_tokens (p : TypePart) : ∀ token ∈ p.tokens, Paired token := by
  have hname : Paired p.name.toList :=
    paired_of_not_mem (p.isPartName.not_mem (by decide)) (p.isPartName.not_mem (by decide))
  refine List.forall_mem_cons.2 ⟨hname, fun token htoken => ?_⟩
  obtain ⟨text, htext, rfl⟩ := Option.map_eq_some_iff.1 (Option.mem_toList.1 htoken)
  exact .enclosed (p.paired text htext)

theorem dropArguments_name (p : TypePart) :
    dropArguments 0 p.name.toList = p.name.toList :=
  dropArguments_eq_self (fun c hc => (p.isPartName.plain c hc).1) (p.isPartName.not_mem (by decide))
    (p.isPartName.not_mem (by decide))

theorem flatMap_tokens (p : TypePart) : p.tokens.flatMap (dropArguments 0) = p.name.toList := by
  rw [tokens, List.flatMap_cons, p.dropArguments_name]
  cases htext : p.arguments? with
  | none => exact List.append_nil _
  | some text =>
    have hpaired := p.paired text htext
    have hnothing : dropArguments 0 ('<' :: text ++ ['>']) = [] := by
      rw [List.cons_append, dropArguments_open, hpaired.dropArguments_append,
        hpaired.dropArguments_succ]
      rfl
    rw [Option.map_some, Option.toList_some, List.flatMap_singleton, hnothing, List.append_nil]

theorem dropEllipses_name (p : TypePart) (r : List Char) :
    dropEllipses (p.name.toList ++ r) = p.name.toList ++ dropEllipses r :=
  dropEllipses_append (p.isPartName.not_mem (by decide)) r

theorem dropEllipses_dot_name (p : TypePart) (r : List Char) :
    dropEllipses ('.' :: p.name.toList ++ r) = '.' :: p.name.toList ++ dropEllipses r := by
  have hempty : p.name.toList ≠ [] := mt String.toList_eq_nil_iff.1 p.isPartName.ne_empty
  obtain ⟨c, cs, hname⟩ := List.exists_cons_of_ne_nil hempty
  have hc : c ≠ '.' := by
    rintro rfl
    exact p.isPartName.not_mem (by decide) (hname ▸ List.mem_cons_self)
  have hrest := p.dropEllipses_name r
  rw [hname, List.cons_append] at hrest
  rw [hname, List.cons_append, List.cons_append, dropEllipses_dot hc, hrest]
  rfl

end TypePart

/-! ### Written types -/

/-- Parts with a dot between any two of them, array brackets behind them and maybe an ellipsis. -/
structure WrittenType where
  first : TypePart
  rest : List TypePart
  dimensions : Nat
  variadic : Bool

namespace WrittenType

def names (t : WrittenType) : List String := t.first.name :: t.rest.map TypePart.name

def ending (t : WrittenType) : List (List Char) :=
  (List.replicate t.dimensions [['['], [']']]).flatten ++
    if t.variadic then [['.', '.', '.']] else []

def tokens (t : WrittenType) : List (List Char) :=
  t.first.tokens ++ t.rest.flatMap (fun p => ['.'] :: p.tokens) ++ t.ending

theorem mem_ending {t : WrittenType} {token : List Char} (h : token ∈ t.ending) :
    token ∈ [['['], [']'], ['.', '.', '.']] := by
  rw [ending, List.mem_append, List.mem_flatten] at h
  obtain ⟨pair, hpair, htoken⟩ | h := h
  · obtain rfl := List.eq_of_mem_replicate hpair
    exact List.mem_append_left [['.', '.', '.']] htoken
  · split at h
    · exact List.mem_append_right [['['], [']']] h
    · exact absurd h List.not_mem_nil

theorem paired_tokens (t : WrittenType) : ∀ token ∈ t.tokens, Paired token := by
  have hending : ∀ token ∈ [['['], [']'], ['.', '.', '.']], Paired token := by decide
  intro token htoken
  simp only [tokens, List.mem_append, List.mem_flatMap, List.mem_cons] at htoken
  obtain (htoken | ⟨p, -, rfl | htoken⟩) | htoken := htoken
  · exact t.first.paired_tokens token htoken
  · exact .plain (by decide) (by decide)
  · exact p.paired_tokens token htoken
  · exact hending token (mem_ending htoken)

def joined (t : WrittenType) : List Char :=
  t.first.name.toList ++ t.rest.flatMap fun p => '.' :: p.name.toList

theorem toList_joinWith_names (t : WrittenType) : (joinWith "." t.names).toList = t.joined := by
  rw [names, toList_joinWith, List.flatMap_map]
  rfl

theorem flatMap_tokens (t : WrittenType) :
    t.tokens.flatMap (dropArguments 0) = t.joined ++ t.ending.flatten := by
  have hpart : ∀ p : TypePart,
      (['.'] :: p.tokens).flatMap (dropArguments 0) = '.' :: p.name.toList := by
    intro p
    rw [List.flatMap_cons, p.flatMap_tokens]
    rfl
  have hending : ∀ token ∈ [['['], [']'], ['.', '.', '.']], dropArguments 0 token = token := by
    decide
  rw [tokens, List.flatMap_append, List.flatMap_append, t.first.flatMap_tokens, List.flatMap_assoc,
    List.flatMap_def (l := t.ending),
    List.map_congr_left fun token h => hending token (mem_ending h), List.map_id']
  simp only [hpart, joined]

theorem joined_plain (t : WrittenType) :
    ∀ c ∈ t.joined, isBlank c = false ∧ c ∉ ['<', '>', '[', ']'] := by
  have hname : ∀ (p : TypePart) (c : Char), c ∈ p.name.toList →
      isBlank c = false ∧ c ∉ ['<', '>', '[', ']'] := fun p c hc =>
    ⟨(p.isPartName.plain c hc).1, mt (List.mem_cons_of_mem '.') (p.isPartName.plain c hc).2⟩
  intro c hc
  simp only [joined, List.mem_append, List.mem_flatMap, List.mem_cons] at hc
  obtain hc | ⟨p, -, rfl | hc⟩ := hc
  · exact hname t.first c hc
  · decide
  · exact hname p c hc

theorem not_mem_joined (t : WrittenType) {c : Char} (hc : c ∈ ['<', '>', '[', ']']) :
    c ∉ t.joined :=
  fun hmem => (t.joined_plain c hmem).2 hc

theorem dropArguments_joined (t : WrittenType) : dropArguments 0 t.joined = t.joined :=
  dropArguments_eq_self (fun c hc => (t.joined_plain c hc).1) (t.not_mem_joined (by decide))
    (t.not_mem_joined (by decide))

theorem dropBrackets_joined (t : WrittenType) (r : List Char) :
    dropBrackets (t.joined ++ r) = t.joined ++ dropBrackets r :=
  dropBrackets_append (t.not_mem_joined (by decide)) r

theorem dropBrackets_ending (t : WrittenType) :
    dropBrackets t.ending.flatten = if t.variadic then ['.', '.', '.'] else [] := by
  have hpairs : ((List.replicate t.dimensions [['['], [']']]).flatten).flatten =
      (List.replicate t.dimensions ['[', ']']).flatten := by
    rw [List.flatten_flatten, List.map_replicate]
    rfl
  rw [ending, List.flatten_append, hpairs, dropBrackets_pairs]
  split <;> rfl

theorem dropEllipses_joined (t : WrittenType) (r : List Char) :
    dropEllipses (t.joined ++ r) = t.joined ++ dropEllipses r := by
  have hrest : ∀ parts : List TypePart,
      dropEllipses (parts.flatMap (fun p => '.' :: p.name.toList) ++ r) =
        parts.flatMap (fun p => '.' :: p.name.toList) ++ dropEllipses r := by
    intro parts
    induction parts with
    | nil => rfl
    | cons p parts ih =>
      rw [List.flatMap_cons, List.append_assoc, p.dropEllipses_dot_name, ih, List.append_assoc]
  rw [joined, List.append_assoc, t.first.dropEllipses_name, hrest, List.append_assoc]

/-- What is left of any text of the type. -/
theorem eraseType_spaced {t : WrittenType} {text : String} (h : Spaced t.tokens text.toList) :
    eraseType text = joinWith "." t.names := by
  have hellipsis : dropEllipses (if t.variadic then ['.', '.', '.'] else []) = [] := by
    split <;> rfl
  -- the array brackets stand next to each other by now, and the ellipsis next to a name
  rw [eraseType, h.dropArguments_eq t.paired_tokens, t.flatMap_tokens, t.dropBrackets_joined,
    t.dropBrackets_ending, t.dropEllipses_joined, hellipsis, List.append_nil,
    ← t.toList_joinWith_names, String.ofList_toList]

theorem eraseType_joinWith_names (t : WrittenType) :
    eraseType (joinWith "." t.names) = joinWith "." t.names := by
  have hbrackets : dropBrackets t.joined = t.joined := by
    simpa [dropBrackets] using t.dropBrackets_joined []
  have hellipses : dropEllipses t.joined = t.joined := by
    simpa [dropEllipses] using t.dropEllipses_joined []
  rw [eraseType, t.toList_joinWith_names, t.dropArguments_joined, hbrackets, hellipses,
    ← t.toList_joinWith_names, String.ofList_toList]

/-- However a type is spaced and whatever its arguments are, erasing leaves its names with dots between
them, of which erasing takes nothing away. -/
theorem eraseType_eq_names {t : WrittenType} {text : String} (h : Spaced t.tokens text.toList) :
    eraseType text = joinWith "." t.names ∧ eraseType (eraseType text) = eraseType text := by
  have herased := eraseType_spaced h
  refine ⟨herased, ?_⟩
  rw [herased, t.eraseType_joinWith_names]

/-- The type `java.util.Map<K, List<V[]>>.Entry<>[][]...`. -/
def entryRows : WrittenType where
  first := ⟨"java", none, by decide, by decide⟩
  rest := [⟨"util", none, by decide, by decide⟩,
    ⟨"Map", some " K, List<V[]> ".toList, by decide, by decide⟩,
    ⟨"Entry", some [], by decide, by decide⟩]
  dimensions := 2
  variadic := true

theorem eraseType_entryRows :
    Spaced entryRows.tokens "java . util\t.Map < K, List<V[]> >.Entry<> [ ] [] ...".toList ∧
    eraseType "java . util\t.Map < K, List<V[]> >.Entry<> [ ] [] ..." = "java.util.Map.Entry" ∧
    eraseType "java.util.Map.Entry" = "java.util.Map.Entry" := by
  have hspaced :
      Spaced entryRows.tokens "java . util\t.Map < K, List<V[]> >.Entry<> [ ] [] ...".toList :=
    .token <| .blank (by decide) <| .token <| .blank (by decide) <| .token <| .blank (by decide) <|
      .token <| .token <| .blank (by decide) <| .token <| .token <| .token <| .token <|
      .blank (by decide) <| .token <| .blank (by decide) <| .token <| .blank (by decide) <|
      .token <| .token <| .blank (by decide) <| .token .nil
  obtain ⟨herased, hagain⟩ := eraseType_eq_names hspaced
  have hnames : joinWith "." entryRows.names = "java.util.Map.Entry" := by decide
  rw [herased, hnames] at hagain
  exact ⟨hspaced, herased.trans hnames, hagain⟩

end WrittenType

end PackageModularity
