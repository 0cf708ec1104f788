import Mathlib.Data.List.Infix
import PackageModularity.Package.SourceFilter
import PackageModularity.Proofs.Text.EncodedText

/-!
Extensions without wildcards. A filter made of such extensions looks at the file name alone: it
accepts the names that end with a dot and one of them and do not hold the excluded text.
-/
namespace PackageModularity

namespace Pattern

/-- A character that stands for itself in a pattern. -/
def IsPlain (c : Char) : Prop := c ∉ ['*', '?', '[', ']', '\x7b', '\x7d', ',', '\\']

instance (c : Char) : Decidable (IsPlain c) := inferInstanceAs (Decidable (c ∉ _))

/-! ### Reading -/

theorem Reading.push_append (s : Reading) (ts us : List PatternToken) :
    s.push (ts ++ us) = (s.push ts).push us := by
  simp [Reading.push]

theorem readFrom_plain {c : Char} (h : IsPlain c) (before : Option Char) (r : List Char)
    (s : Reading) :
    readFrom 0 before (c :: r) s = readFrom 0 (some c) r (s.push (literal c)) := by
  simp only [IsPlain, List.mem_cons, not_or] at h
  obtain ⟨hstar, hmark, hbracket, -, hbrace, hclose, hcomma, hescape, -⟩ := h
  rw [readFrom]
  exacts [hmark, hstar, hbracket, hbrace, hclose, hcomma, fun _ h _ => hstar h,
    fun h _ => hescape h, fun _ _ h _ => hescape h]

theorem readFrom_of_plain {cs : List Char} (h : ∀ c ∈ cs, IsPlain c) (before : Option Char)
    (s : Reading) : readFrom 0 before cs s = .ok (s.push (cs.flatMap literal)) := by
  induction cs generalizing before s with
  | nil => rw [readFrom]; rfl
  | cons c r ih =>
    obtain ⟨hc, hr⟩ := List.forall_mem_cons.1 h
    rw [readFrom_plain hc, ih hr, List.flatMap_cons, Reading.push_append]

theorem flatMap_literal (cs : List Char) :
    cs.flatMap literal = (cs.flatMap String.utf8EncodeChar).map .byte := by
  rw [List.map_flatMap]
  refine List.flatMap_congr fun c _ => ?_
  rw [literal, Utf8.encode_eq, Char.toString_eq_singleton, String.toList_singleton,
    List.flatMap_singleton]

def endingIn (text : String) : Pattern := ⟨.anyBytes :: (Utf8.encode text).map .byte⟩

theorem read_star {text : String} (h : ∀ c ∈ text.toList, IsPlain c) :
    read ("*" ++ text) = .ok (endingIn text) := by
  have hstar : readFrom 0 none ('*' :: text.toList) ⟨⟨[], []⟩, []⟩ =
      readFrom 0 (some '*') text.toList ⟨⟨[], [.anyBytes]⟩, []⟩ := by
    rw [readFrom]
    · rfl
    · intro r htext
      exact h '*' (by simp [htext]) (by simp)
  have htext : ("*" ++ text).toList = '*' :: text.toList := by simp
  rw [read, htext, hstar, readFrom_of_plain h, flatMap_literal, ← Utf8.encode_eq]
  simp [bind, Except.bind, Reading.push, endingIn]

/-! ### Matching -/

theorem mem_suffixes (t r : Bytes) : r ∈ suffixes t ↔ r <:+ t := by
  induction t with
  | nil => simp [suffixes]
  | cons b t ih => simp [suffixes, ih, List.suffix_cons_iff]

theorem mem_advance_byte (b : UInt8) (ts : List Bytes) (r : Bytes) :
    r ∈ advance (.byte b) ts ↔ b :: r ∈ ts := by
  rw [advance, List.mem_filterMap]
  constructor
  · rintro ⟨t, ht, hr⟩
    cases t with
    | nil => simp [take?] at hr
    | cons b' t =>
      rw [take?] at hr
      by_cases hb : b' = b
      · obtain rfl : t = r := by simpa [hb] using hr
        exact hb ▸ ht
      · simp [hb] at hr
  · intro h
    exact ⟨b :: r, h, by simp [take?]⟩

theorem mem_advanceAll_bytes (bs : Bytes) (ts : List Bytes) (r : Bytes) :
    r ∈ advanceAll (bs.map .byte) ts ↔ bs ++ r ∈ ts := by
  induction bs generalizing ts with
  | nil => simp [advanceAll]
  | cons b bs ih => rw [List.map_cons, advanceAll, ih, mem_advance_byte, List.cons_append]

theorem isMatch_endingIn (text name : String) :
    (endingIn text).isMatch name = true ↔ text.toList <:+ name.toList := by
  have hempty : (endingIn text).isMatch name = true ↔
      [] ∈ advanceAll ((Utf8.encode text).map .byte) (advance .anyBytes [Utf8.encode name]) := by
    rw [isMatch, endingIn, advanceAll, List.any_eq_true]
    simp
  rw [hempty, mem_advanceAll_bytes, List.append_nil, advance, List.mem_eraseDups,
    List.flatMap_singleton, mem_suffixes, Utf8.encode_eq, Utf8.encode_eq, Utf8.flatMap_suffix_iff]

end Pattern

namespace SourceFilter

theorem hasInfix_iff (part cs : List Char) : hasInfix part cs = true ↔ part <:+: cs := by
  induction cs with
  | nil => simp [hasInfix]
  | cons c r ih => simp [hasInfix, ih, List.infix_cons_iff]

theorem readGlob_globOf {e : String} (h : ∀ c ∈ e.toList, Pattern.IsPlain c) :
    readGlob (globOf e) = .ok (Pattern.endingIn ("." ++ dropDots e)) := by
  have hplain : ∀ c ∈ ("." ++ dropDots e).toList, Pattern.IsPlain c := by
    intro c hc
    rw [String.toList_append, List.mem_append] at hc
    rcases hc with hdot | hrest
    · obtain rfl : c = '.' := by simpa using hdot
      decide
    · rw [dropDots, String.toList_ofList] at hrest
      exact h c ((List.dropWhile_sublist _).subset hrest)
  have hglob : globOf e = "*" ++ ("." ++ dropDots e) := by
    rw [globOf, ← String.append_assoc]
    rfl
  rw [readGlob, hglob, Pattern.read_star hplain]

theorem of_plain {extensions : List String}
    (h : ∀ e ∈ extensions, ∀ c ∈ e.toList, Pattern.IsPlain c) (excluded : String) :
    SourceFilter.of extensions excluded =
      .ok ⟨extensions.map fun e => Pattern.endingIn ("." ++ dropDots e), excluded⟩ := by
  have hread : extensions.mapM (fun e => readGlob (globOf e)) =
      .ok (extensions.map fun e => Pattern.endingIn ("." ++ dropDots e)) := by
    induction extensions with
    | nil => rfl
    | cons e r ih =>
      obtain ⟨he, hr⟩ := List.forall_mem_cons.1 h
      rw [List.mapM_cons, readGlob_globOf he, ih hr]
      rfl
  rw [SourceFilter.of, hread]
  rfl

theorem acceptsName_iff (extensions : List String) (excluded name : String) :
    acceptsName ⟨extensions.map fun e => Pattern.endingIn ("." ++ dropDots e), excluded⟩ name =
        true ↔
      (excluded ≠ "" → ¬ excluded.toList <:+: name.toList) ∧
        ∃ e ∈ extensions, '.' :: (dropDots e).toList <:+ name.toList := by
  have hexcluded : (excluded.toList.isEmpty || !hasInfix excluded.toList name.toList) = true ↔
      (excluded ≠ "" → ¬ excluded.toList <:+: name.toList) := by
    rw [Bool.or_eq_true, Bool.not_eq_true', ← Bool.not_eq_true, hasInfix_iff, List.isEmpty_iff,
      String.toList_eq_nil_iff]
    exact or_iff_not_imp_left
  rw [acceptsName, Bool.and_eq_true, hexcluded, List.any_map, List.any_eq_true]
  refine and_congr_right fun _ => exists_congr fun e => and_congr_right fun _ => ?_
  rw [Function.comp_apply, Pattern.isMatch_endingIn, String.toList_append]
  rfl

theorem accepts_eq_true_iff {f : SourceFilter} {p : Path} :
    f.accepts p = true ↔ ∃ name, p.fileName? = some name ∧ f.acceptsName name = true := by
  rw [accepts]
  cases p.fileName? <;> simp

/-- An extension without wildcards that is more than the dots at its start. -/
structure IsPlainExtension (e : String) : Prop where
  plain : ∀ c ∈ e.toList, Pattern.IsPlain c
  nonempty : dropDots e ≠ ""

/-- Extensions without wildcards always make a filter. It accepts a path by the end of its file
name, so only the last component counts, and of the extensions neither order nor repetition. -/
theorem accepts_iff_suffix {extensions : List String}
    (h : ∀ e ∈ extensions, IsPlainExtension e) (excluded : String) :
    ∃ f, SourceFilter.of extensions excluded = .ok f ∧
      (∀ p : Path, f.accepts p = true ↔ ∃ name, p.fileName? = some name ∧
        (excluded ≠ "" → ¬ excluded.toList <:+: name.toList) ∧
        ∃ e ∈ extensions, '.' :: (dropDots e).toList <:+ name.toList) ∧
      (∀ p q : Path, p.components.getLast? = q.components.getLast? →
        f.accepts p = f.accepts q) ∧
      ∀ others : List String, (∀ e, e ∈ others ↔ e ∈ extensions) →
        ∃ g, SourceFilter.of others excluded = .ok g ∧ ∀ p, g.accepts p = f.accepts p := by
  have hplain : ∀ e ∈ extensions, ∀ c ∈ e.toList, Pattern.IsPlain c := fun e he => (h e he).plain
  refine ⟨_, of_plain hplain excluded, fun p => ?_, fun p q hlast => ?_, fun others hothers => ?_⟩
  · rw [accepts_eq_true_iff]
    simp only [acceptsName_iff]
  · rw [accepts, accepts, Path.fileName?, Path.fileName?, hlast]
  · refine ⟨_, of_plain (fun e he => hplain e ((hothers e).1 he)) excluded, fun p => ?_⟩
    rw [Bool.eq_iff_iff, accepts_eq_true_iff, accepts_eq_true_iff]
    simp only [acceptsName_iff, hothers]

theorem accepts_iff_suffix_java :
    (∀ e ∈ ["java", "..kt"], IsPlainExtension e) ∧
    ∃ f, SourceFilter.of ["java", "..kt"] "Test" = .ok f ∧
      f.accepts (.ofText "a.b/Näme.kt") = true ∧ f.accepts (.ofText "c/.java/") = true ∧
      f.accepts (.ofText "AppTest.java") = false ∧ f.accepts (.ofText "a.java/kt") = false := by
  have hplain : ∀ e ∈ ["java", "..kt"], IsPlainExtension e :=
    List.forall_mem_cons.2 ⟨⟨by simp [Pattern.IsPlain], by decide⟩,
      List.forall_mem_singleton.2 ⟨by simp [Pattern.IsPlain], by decide⟩⟩
  obtain ⟨f, hf, haccepts, -⟩ := accepts_iff_suffix hplain "Test"
  refine ⟨hplain, f, hf,
    (haccepts _).2 ⟨"Näme.kt", by decide, by decide, "..kt", by decide, by decide⟩,
    (haccepts _).2 ⟨".java", by decide, by decide, "java", by decide, by decide⟩, ?_, ?_⟩
  · rw [← Bool.not_eq_true, haccepts]
    rintro ⟨name, hname, hexcluded, -⟩
    obtain rfl : "AppTest.java" = name :=
      Option.some.inj ((by decide : some "AppTest.java" = _).trans hname)
    exact hexcluded (by decide) (by decide)
  · rw [← Bool.not_eq_true, haccepts]
    rintro ⟨name, hname, -, hsuffix⟩
    obtain rfl : "kt" = name := Option.some.inj ((by decide : some "kt" = _).trans hname)
    revert hsuffix
    decide

end SourceFilter

end PackageModularity
