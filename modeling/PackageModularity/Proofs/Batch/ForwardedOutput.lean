import PackageModularity.Proofs.Batch.ObservedOutcomes
import PackageModularity.Proofs.Files.FileExtension
import PackageModularity.Proofs.Text.CutText

/-!
What a child prints and what is logged of it. Decoding a stream line by line gives the lines of the
whole stream decoded at once, and all of them are in the log when the child's run is over.
-/
namespace PackageModularity

namespace Output

/-! ### Lines of a text -/

/-- What stands between the newlines of a text. What follows the last one counts unless it is
empty. -/
def pieces (text : List Char) : List (List Char) :=
  let parts := splitOnChar '\n' text
  if parts.getLast? = some [] then parts.dropLast else parts

def withoutReturns (line : List Char) : List Char := (line.reverse.dropWhile (· = '\r')).reverse

def textLines (text : String) : List String :=
  (pieces text.toList).map fun line => String.ofList (withoutReturns line)

theorem withoutReturns_of_not_mem {line : List Char} (h : '\r' ∉ line) :
    withoutReturns line = line := by
  have hfirst : line.reverse.dropWhile (· = '\r') = line.reverse := by
    cases hline : line.reverse with
    | nil => rfl
    | cons c r =>
      have hc : c ≠ '\r' := by
        rintro rfl
        exact h (List.mem_reverse.1 (hline ▸ List.mem_cons_self))
      simp [hc]
  rw [withoutReturns, hfirst, List.reverse_reverse]

theorem getLast?_splitOnChar_eq_nil {text : List Char}
    (h : (splitOnChar '\n' text).getLast? = some []) : text = [] ∨ text.getLast? = some '\n' := by
  have hjoin := joinWith_map_ofList '\n' text
  obtain ⟨front, hfront⟩ := List.getLast?_eq_some_iff.1 h
  rw [hfront, List.map_append, List.map_singleton] at hjoin
  by_cases hempty : front = []
  · subst hempty
    exact Or.inl (String.ofList_injective hjoin.symm)
  · rw [joinWith_concat _ (by simpa using hempty)] at hjoin
    exact Or.inr (by simpa using congrArg (·.toList.getLast?) hjoin.symm)

theorem joinWith_pieces (text : List Char) :
    joinWith "\n" ((pieces text).map String.ofList) ++
      (if text.getLast? = some '\n' then "\n" else "") = String.ofList text := by
  by_cases hend : text.getLast? = some '\n'
  · obtain ⟨front, rfl⟩ := List.getLast?_eq_some_iff.1 hend
    have hparts : splitOnChar '\n' (front ++ ['\n']) = splitOnChar '\n' front ++ [[]] :=
      splitOnChar_append '\n' front []
    have hpieces : pieces (front ++ ['\n']) = splitOnChar '\n' front := by simp [pieces, hparts]
    rw [hpieces, if_pos hend, show "\n" = '\n'.toString from rfl, joinWith_map_ofList,
      String.ofList_append]
    rfl
  · rw [if_neg hend, String.append_empty]
    by_cases hlast : (splitOnChar '\n' text).getLast? = some []
    · obtain rfl := (getLast?_splitOnChar_eq_nil hlast).resolve_right hend
      rfl
    · rw [pieces, if_neg hlast]
      exact joinWith_map_ofList '\n' text

theorem subset_of_mem_splitOnChar {sep : Char} {text part : List Char}
    (h : part ∈ splitOnChar sep text) : part ⊆ text := by
  induction text generalizing part with
  | nil => simp_all [splitOnChar]
  | cons c r ih =>
    obtain ⟨p, ps, hp⟩ := List.exists_cons_of_ne_nil (splitOnChar_ne_nil sep r)
    obtain ⟨hfirst, hrest⟩ := List.forall_mem_cons.1 fun part => hp ▸ @ih part
    by_cases hc : c = sep
    · rcases (by simpa [splitOnChar, hc, hp] using h : part = [] ∨ part = p ∨ part ∈ ps) with
        rfl | rfl | hpart
      · exact List.nil_subset _
      · exact List.subset_cons_of_subset c hfirst
      · exact List.subset_cons_of_subset c (hrest part hpart)
    · rcases (by simpa [splitOnChar, hc, hp] using h : part = c :: p ∨ part ∈ ps) with rfl | hpart
      · exact List.cons_subset_cons c hfirst
      · exact List.subset_cons_of_subset c (hrest part hpart)

theorem subset_of_mem_pieces {text line : List Char} (h : line ∈ pieces text) : line ⊆ text := by
  simp only [pieces] at h
  split at h
  · exact subset_of_mem_splitOnChar (List.mem_of_mem_dropLast h)
  · exact subset_of_mem_splitOnChar h

theorem joinWith_textLines {text : String} (h : '\r' ∉ text.toList) :
    joinWith "\n" (textLines text) ++ (if text.toList.getLast? = some '\n' then "\n" else "") =
      text := by
  have hplain : textLines text = (pieces text.toList).map String.ofList := by
    refine List.map_congr_left fun line hline => congrArg _ (withoutReturns_of_not_mem ?_)
    exact fun hc => h (subset_of_mem_pieces hline hc)
  rw [hplain, joinWith_pieces, String.ofList_toList]

/-! ### Lines of a stream -/

theorem split_of_not_mem {line : List UInt8} (h : lineFeed ∉ line) : split line = ([], line) := by
  induction line with
  | nil => rfl
  | cons b r ih =>
    obtain ⟨hb, hr⟩ := not_or.1 (mt List.mem_cons.2 h)
    simp [split, ih hr, Ne.symm hb]

theorem split_append {line : List UInt8} (h : lineFeed ∉ line) (more : List UInt8) :
    split (line ++ lineFeed :: more) = (line :: (split more).1, (split more).2) := by
  induction line with
  | nil => simp [split]
  | cons b r ih =>
    obtain ⟨hb, hr⟩ := not_or.1 (mt List.mem_cons.2 h)
    simp [split, ih hr, Ne.symm hb]

/-- A stream is a line without an end, or a line and a stream behind it. -/
theorem line_induction {motive : List UInt8 → Prop}
    (last : ∀ line, lineFeed ∉ line → motive line)
    (line : ∀ line more, lineFeed ∉ line → motive more → motive (line ++ lineFeed :: more))
    (bytes : List UInt8) : motive bytes := by
  induction hn : bytes.length using Nat.strong_induction_on generalizing bytes with
  | _ n ih =>
    by_cases h : lineFeed ∈ bytes
    · obtain ⟨front, more, rfl, hfront⟩ := List.eq_append_cons_of_mem h
      refine line front more hfront (ih more.length ?_ more rfl)
      rw [← hn, List.length_append, List.length_cons]
      omega
    · exact last bytes h

theorem split_parts (bytes : List UInt8) :
    ∀ line ∈ (split bytes).1 ++ [(split bytes).2], lineFeed ∉ line := by
  induction bytes using line_induction with
  | last line h => simpa [split_of_not_mem h] using h
  | line line more h ih =>
    rw [split_append h]
    exact List.forall_mem_cons.2 ⟨h, ih⟩

abbrev decoded (bytes : List UInt8) : List Char := (Utf8.decodeLossy bytes).toList

theorem decoded_append (line more : List UInt8) :
    decoded (line ++ lineFeed :: more) = decoded line ++ '\n' :: decoded more := by
  have hascii : lineFeed < 0x80 := by decide
  simp only [decoded, Utf8.toList_decodeLossy, Utf8.pieces_append_ascii hascii, List.map_append,
    List.map_cons]
  rfl

theorem not_mem_decoded {c : Char} {b : UInt8} (hc : String.utf8EncodeChar c = [b])
    (hgap : c ≠ '\uFFFD') {bytes : List UInt8} (h : b ∉ bytes) : c ∉ decoded bytes := by
  rw [decoded, Utf8.toList_decodeLossy]
  intro hmem
  obtain ⟨piece, hpiece, rfl⟩ := List.mem_map.1 hmem
  cases piece with
  | none => exact hgap rfl
  | some c =>
    obtain ⟨b', hb', tail, hbytes⟩ := Utf8.mem_of_mem_pieces hpiece
    obtain rfl : b = b' := (List.cons.inj (hc.symm.trans hbytes)).1
    exact h hb'

theorem newline_not_mem_decoded {line : List UInt8} (h : lineFeed ∉ line) : '\n' ∉ decoded line :=
  not_mem_decoded rfl (by decide) h

theorem decoded_eq_nil_iff {bytes : List UInt8} : decoded bytes = [] ↔ bytes = [] := by
  constructor
  · intro h
    by_contra hbytes
    rw [decoded, Utf8.toList_decodeLossy, List.map_eq_nil_iff] at h
    exact Utf8.pieces_ne_nil hbytes h
  · rintro rfl
    rfl

theorem splitOnChar_decoded (bytes : List UInt8) : splitOnChar '\n' (decoded bytes) =
    ((split bytes).1 ++ [(split bytes).2]).map decoded := by
  induction bytes using line_induction with
  | last line h =>
    rw [split_of_not_mem h, splitOnChar_of_not_mem (newline_not_mem_decoded h)]
    rfl
  | line line more h ih =>
    rw [decoded_append, splitOnChar_append, ih, split_append h,
      splitOnChar_of_not_mem (newline_not_mem_decoded h)]
    rfl

theorem shown_eq {line : List UInt8} (h : lineFeed ∉ line) :
    shown line = String.ofList (withoutReturns (decoded line)) := by
  have hnewline := newline_not_mem_decoded h
  have hdrop : ∀ cs : List Char, '\n' ∉ cs →
      cs.dropWhile (fun c => c = '\r' ∨ c = '\n') = cs.dropWhile (· = '\r') := by
    intro cs hcs
    induction cs with
    | nil => rfl
    | cons c r ih =>
      obtain ⟨hc, hr⟩ := not_or.1 (mt List.mem_cons.2 hcs)
      by_cases hreturn : c = '\r'
      · simpa [hreturn] using ih hr
      · simp [hreturn, Ne.symm hc]
  rw [shown, withoutReturns, ← hdrop _ (by simpa using hnewline)]

theorem lines_eq (bytes : List UInt8) : lines bytes = textLines (Utf8.decodeLossy bytes) := by
  have hparts := split_parts bytes
  have hshown : ∀ parts : List (List UInt8), (∀ line ∈ parts, lineFeed ∉ line) →
      parts.map shown = (parts.map decoded).map fun line => String.ofList (withoutReturns line) := by
    intro parts hmem
    rw [List.map_map]
    exact List.map_congr_left fun line hline => shown_eq (hmem line hline)
  have hlast : (((split bytes).1 ++ [(split bytes).2]).map decoded).getLast? = some [] ↔
      (split bytes).2 = [] := by
    rw [List.map_append, List.map_singleton, List.getLast?_concat, Option.some_inj,
      decoded_eq_nil_iff]
  rw [textLines, pieces, splitOnChar_decoded]
  simp only [lines, hlast]
  split
  · rw [List.append_nil, List.map_append, List.map_singleton, List.dropLast_concat]
    exact hshown _ fun line hline => hparts line (List.mem_append_left _ hline)
  · exact hshown _ hparts

theorem eq_encode_lines {bytes : List UInt8} (hvalid : (Utf8.decode? bytes).isSome)
    (hreturn : 0x0D ∉ bytes) :
    ∃ last ∈ ["", "\n"], bytes = Utf8.encode (joinWith "\n" (lines bytes) ++ last) := by
  obtain ⟨text, htext⟩ := Option.isSome_iff_exists.1 hvalid
  have hbytes : Utf8.encode text = bytes := Utf8.decode?_eq_some_iff.1 htext
  have hdecoded : Utf8.decodeLossy bytes = text := by rw [← hbytes, Utf8.decodeLossy_encode]
  have hplain : '\r' ∉ text.toList := by
    rw [← hdecoded]
    exact not_mem_decoded rfl (by decide) hreturn
  refine ⟨if text.toList.getLast? = some '\n' then "\n" else "", by split <;> simp, ?_⟩
  rw [lines_eq, hdecoded, joinWith_textLines hplain, hbytes]

end Output

/-! ### The log of a child -/

def textsAt (level : Level) (log : List LogLine) : List String :=
  (log.filter (·.level = level)).map LogLine.text

theorem textsAt_append (level : Level) (log log' : List LogLine) :
    textsAt level (log ++ log') = textsAt level log ++ textsAt level log' := by
  simp [textsAt]

theorem textsAt_map (level level' : Level) (project : String) (texts : List String) :
    textsAt level (texts.map (⟨level', project, ·⟩)) = if level' = level then texts else [] := by
  by_cases h : level' = level
  · simp [textsAt, List.filter_map, Function.comp_def, h]
  · simp [textsAt, List.filter_map, Function.comp_def, h]

/-- A child was started, and it ended before its time was up. -/
def Ending.InTime : Ending → Prop
  | .exited _ | .signalled _ => True
  | .timedOut _ | .notStarted _ => False

namespace Execution

theorem log_eq {e : Execution} (h : e.ending.InTime) (project : String) :
    e.log project = Output.logged project Output.lines e.stdout e.stderr := by
  rw [log]
  cases hending : e.ending with
  | exited status => rfl
  | signalled number => rfl
  | timedOut micros => exact (hending ▸ h).elim
  | notStarted why => exact (hending ▸ h).elim

theorem textsAt_log {e : Execution} (h : e.ending.InTime) (project : String) :
    textsAt .info (e.log project) = Output.textLines (Utf8.decodeLossy e.stdout) ∧
      textsAt .error (e.log project) = Output.textLines (Utf8.decodeLossy e.stderr) := by
  rw [log_eq h, Output.logged, Output.lines_eq, Output.lines_eq]
  simp [textsAt_append, textsAt_map]

theorem of_mem_log {e : Execution} {project : String} {line : LogLine}
    (h : line ∈ e.log project) : line.project = project ∧ line.level ≠ .warn := by
  rw [log] at h
  split at h
  · simp at h
  · simp only [Output.logged, List.mem_append, List.mem_map] at h
    rcases h with ⟨text, -, rfl⟩ | ⟨text, -, rfl⟩ <;> simp
  · simp only [Output.logged, List.mem_append, List.mem_map] at h
    rcases h with ⟨text, -, rfl⟩ | ⟨text, -, rfl⟩ <;> simp

end Execution

namespace ChildProcess

theorem inTime_execute (p : ChildProcess) (limit : Option Nat) (fs : FileSystem) (file : String) :
    (p.execute limit fs file).ending.InTime ↔ ∀ most ∈ limit, p.micros < most := by
  have hending : p.ending.InTime := by
    rw [ending]
    split
    · split <;> trivial
    · trivial
  cases limit with
  | none => simp [execute, hending]
  | some most =>
    by_cases hlate : most ≤ p.micros
    · simp [execute, hlate, Ending.InTime]
    · simp [execute, hlate, hending, Nat.lt_of_not_le hlate]

end ChildProcess

namespace Batch.Pool

variable {b : Batch} {program : Program}

/-! ### The log of a batch -/

theorem log_prepare (s : State) (p : ProjectEntry) : s.log <+: (b.prepare s p).1.log := by
  rw [prepare]
  split
  · exact List.prefix_append _ _
  · dsimp only
    split
    · exact List.prefix_rfl
    · split
      · exact List.prefix_rfl
      · exact List.prefix_append _ _

theorem log_conclude (s : State) (r : BatchReport) (cs : List Started) :
    s.log <+: (b.conclude s r cs).1.log := by
  induction cs generalizing s r with
  | nil => exact List.prefix_rfl
  | cons c cs ih =>
    rw [conclude]
    cases b.failure? s.system c with
    | none => exact ih _ _
    | some f =>
      have hsaid : s.log <+: (s.say f.1 c.project.id f.2).log := List.prefix_append _ _
      exact hsaid.trans (ih _ _)

theorem log_step {x y : Pool} (h : Step b program x y) : x.state.log <+: y.state.log := by
  cases h with
  | prepare listed ready => exact log_prepare _ _
  | refuse listed notReady => exact log_prepare _ _
  | acquire waiting free => exact List.prefix_rfl
  | work running => exact List.prefix_append _ _
  | release running => exact List.prefix_rfl
  | await allListed handles done own => exact log_conclude _ _ _

theorem log_run {x y : Pool} (h : Run b program x y) : x.state.log <+: y.state.log := by
  induction h with
  | refl => exact List.prefix_rfl
  | tail _ hstep ih => exact ih.trans (log_step hstep)

theorem RanOn.log {first last : Pool} {p : ProjectEntry} {fs : FileSystem}
    (h : RanOn b program first last p fs) :
    (program p (b.argumentsFor p) fs).log p.id <:+: last.state.log := by
  obtain ⟨x, front, back, -, -, rfl, hlast⟩ := h
  have hown : (program p (b.argumentsFor p) x.state.system).log p.id <:+
      (afterWork b program x p front back).state.log := List.suffix_append _ _
  exact hown.isInfix.trans (log_run hlast).isInfix

theorem exists_ranOn_of_worked {s : State} {ps : List ProjectEntry} {x : Pool}
    (hrun : Run b program (start b s ps) x) {p : ProjectEntry} (hp : x.Worked p) :
    ∃ fs, RanOn b program (start b s ps) x p fs := by
  induction hrun with
  | refl =>
    obtain ⟨c, -, hc | hc⟩ := hp
    · exact absurd hc List.not_mem_nil
    · exact absurd hc List.not_mem_nil
  | @tail x y hrun hstep ih =>
    rcases hstep.work_or_free with ⟨q, front, back, hrunning, rfl⟩ | ⟨-, hworked⟩
    · rcases (worked_afterWork hrunning).1 hp with rfl | hold
      · exact ⟨x.state.system, x, front, back, hrun, hrunning, rfl, .refl⟩
      · obtain ⟨fs, hran⟩ := ih hold
        exact ⟨fs, hran.step hstep⟩
    · obtain ⟨fs, hran⟩ := ih ((hworked p).1 hp)
      exact ⟨fs, hran.step hstep⟩

/-- A child that has done its work has all its output in the log, and in order: what it printed to
one stream as information, what it printed to the other as errors, in the lines of the whole stream
decoded at once. A valid stream without carriage returns can be read back from these lines. -/
theorem output_forwarded {s : State} {ps : List ProjectEntry} {x : Pool}
    (hrun : Run b program (start b s ps) x) {p : ProjectEntry} (hp : x.Worked p) :
    ∃ fs, RanOn b program (start b s ps) x p fs ∧
      ∀ e, program p (b.argumentsFor p) fs = e → e.ending.InTime →
        ∃ own, own <:+: x.state.log ∧
          (∀ line ∈ own, line.project = p.id ∧ line.level ≠ .warn) ∧
          textsAt .info own = Output.textLines (Utf8.decodeLossy e.stdout) ∧
          textsAt .error own = Output.textLines (Utf8.decodeLossy e.stderr) ∧
          ((Utf8.decode? e.stdout).isSome → 0x0D ∉ e.stdout → ∃ last ∈ ["", "\n"],
            e.stdout = Utf8.encode (joinWith "\n" (textsAt .info own) ++ last)) ∧
          ((Utf8.decode? e.stderr).isSome → 0x0D ∉ e.stderr → ∃ last ∈ ["", "\n"],
            e.stderr = Utf8.encode (joinWith "\n" (textsAt .error own) ++ last)) := by
  obtain ⟨fs, hran⟩ := exists_ranOn_of_worked hrun hp
  refine ⟨fs, hran, ?_⟩
  rintro e rfl htime
  obtain ⟨hinfo, herror⟩ := Execution.textsAt_log htime p.id
  refine ⟨_, hran.log, fun line hline => Execution.of_mem_log hline, hinfo, herror, ?_, ?_⟩
  · rw [hinfo, ← Output.lines_eq]
    exact Output.eq_encode_lines
  · rw [herror, ← Output.lines_eq]
    exact Output.eq_encode_lines

/-- A child that prints a line with carriage returns, one that is no UTF-8, an empty one and the
start of a character, and then fails. -/
def chatty : ChildProcess :=
  ⟨[0x61, 0x0D, 0x0D, 0x0A, 0xFF, 0x0A, 0x0A, 0xC3], [0x78, 0x0A, 0x79], 5, none, none, 3⟩

theorem output_forwarded_chatty : ∃ x own,
    Run twoWorkers (fun _ _ fs => chatty.execute (some 1000) fs "out/t/a.txt")
      (start twoWorkers ⟨twoProjects [] [], []⟩ [⟨"t", "a", "data/t/a"⟩]) x ∧
    own <:+: x.state.log ∧ textsAt .info own = ["a", "\uFFFD", "", "\uFFFD"] ∧
    textsAt .error own = ["x", "y"] ∧
    Utf8.encode (joinWith "\n" (textsAt .error own)) = chatty.stderr := by
  obtain ⟨x, hrun, -, hsame⟩ := run_runProjects twoWorkers
    (fun _ _ fs => chatty.execute (some 1000) fs "out/t/a.txt") ⟨twoProjects [] [], []⟩
    [⟨"t", "a", "data/t/a"⟩]
  have hfinished : x.finished.map Started.project = [⟨"t", "a", "data/t/a"⟩] := by
    rw [(Prod.mk.inj (Prod.mk.inj hsame).2).1]
    decide +kernel
  obtain ⟨c, hc, hproject⟩ := List.mem_map.1 (hfinished ▸ List.mem_singleton_self _)
  obtain ⟨fs, -, hlogged⟩ := output_forwarded hrun ⟨c, hproject, Or.inr hc⟩
  obtain ⟨own, hown, -, hinfo, herror, -, -⟩ := hlogged _ rfl
    ((chatty.inTime_execute (some 1000) fs _).2 (by decide))
  have hout : Output.textLines (Utf8.decodeLossy chatty.stdout) = ["a", "\uFFFD", "", "\uFFFD"] := by
    decide +kernel
  have herr : Output.textLines (Utf8.decodeLossy chatty.stderr) = ["x", "y"] := by decide +kernel
  refine ⟨x, own, hrun, hown, hinfo.trans hout, herror.trans herr, ?_⟩
  rw [herror.trans herr]
  decide +kernel

end Batch.Pool

end PackageModularity
