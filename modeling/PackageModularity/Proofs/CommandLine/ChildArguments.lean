import PackageModularity.CommandLine.Command
import PackageModularity.Proofs.Files.JoinedPath

/-!
The arguments that a batch gives its children. A child asks for the project, the folder and the
settings that the batch means, or its arguments are invalid because one of these values looks like an
option.
-/
namespace PackageModularity

/-- A text that can stand as the value of an option that comes before it. -/
def IsOptionValue (text : String) : Prop := text ≠ "" ∧ Arguments.isValue text = true

instance (text : String) : Decidable (IsOptionValue text) :=
  inferInstanceAs (Decidable (text ≠ "" ∧ Arguments.isValue text = true))

namespace IsOptionValue

theorem of_head {text : String} (hne : text ≠ "") (hhead : text.toList.head? ≠ some '-') :
    IsOptionValue text := by
  refine ⟨hne, ?_⟩
  unfold Arguments.isValue
  split
  · rename_i htext
    exact absurd (by simp [htext]) hhead
  · rfl

theorem head_joinText {base name : String} (hbase : base ≠ "") (hname : IsPiece name) :
    (Path.joinText base name).toList.head? = base.toList.head? := by
  have hslash : name.toList.head? ≠ some '/' := fun e => hname.noSlash (List.mem_of_mem_head? e)
  obtain ⟨c, r, hcr⟩ : ∃ c r, base.toList = c :: r :=
    List.exists_cons_of_ne_nil fun e => hbase (String.toList_inj.1 e)
  rw [Path.joinText, if_neg hslash]
  split <;> simp [hcr]

theorem joinText {base name : String} (hbase : base ≠ "") (hhead : base.toList.head? ≠ some '-')
    (hname : IsPiece name) : Path.joinText base name ≠ "" ∧
      (Path.joinText base name).toList.head? ≠ some '-' := by
  have hsame := head_joinText hbase hname
  refine ⟨fun hempty => ?_, hsame ▸ hhead⟩
  obtain ⟨c, r, hcr⟩ : ∃ c r, base.toList = c :: r :=
    List.exists_cons_of_ne_nil fun e => hbase (String.toList_inj.1 e)
  simp [hempty, hcr] at hsame

end IsOptionValue

namespace Arguments

theorem readFrom_option (s : Seen) {name argument : String} (value : String) (rest : List String)
    (hname : takesValue name = true) (hargument : argument.toList = '-' :: '-' :: name.toList) :
    readFrom s (argument :: value :: rest) =
      if isValue value then
        match option? s name value with
        | some s => readFrom s rest
        | none => .invalid
      else .invalid := by
  have hcases : name = "project" ∨ name = "dataset" ∨ name = "output_dir" ∨ name = "log_dir" ∨
      name = "config" ∨ name = "num_workers" := by
    simpa [takesValue] using hname
  rw [readFrom, hargument]
  rcases hcases with rfl | rfl | rfl | rfl | rfl | rfl
  all_goals rfl

theorem readFrom_verbose (s : Seen) (rest : List String) (h : s.verbose = false) :
    readFrom s ("--verbose" :: rest) = readFrom { s with verbose := true } rest := by
  have hargument : "--verbose".toList = '-' :: '-' :: "verbose".toList := by decide
  rw [readFrom, hargument]
  simp [takesValue, flag?, h]

theorem readFrom_path {s : Seen} (set : Option String → Seen) {name argument value : String}
    {rest : List String} (hname : takesValue name = true)
    (hargument : argument.toList = '-' :: '-' :: name.toList)
    (hset : option? s name value = (path? none value).map set) :
    readFrom s (argument :: value :: rest) =
      if IsOptionValue value then readFrom (set (some value)) rest else .invalid := by
  rw [readFrom_option s value rest hname hargument, hset]
  by_cases hempty : value = ""
  · simp [IsOptionValue, hempty, path?]
  · cases hvalue : isValue value <;> simp [IsOptionValue, hempty, hvalue, path?, once]

theorem readFrom_childOptions (root output : String) (config : Option String) (verbose : Bool) :
    readFrom ⟨none, none, none, none, none, none, false, verbose⟩
        (["--project", root, "--output_dir", output] ++
          (match config with
          | some path => ["--config", path]
          | none => [])) =
      if IsOptionValue root ∧ IsOptionValue output ∧ ∀ path ∈ config, IsOptionValue path then
        .run ⟨.project root, output, "./logs", 1, config, verbose⟩
      else .invalid := by
  have hproject : ∀ rest, readFrom ⟨none, none, none, none, none, none, false, verbose⟩
      ("--project" :: root :: rest) = if IsOptionValue root then
        readFrom ⟨some root, none, none, none, none, none, false, verbose⟩ rest else .invalid :=
    fun rest => readFrom_path (fun root => ⟨root, none, none, none, none, none, false, verbose⟩)
      (show takesValue "project" = true from rfl) (by decide) rfl
  have hfolder : ∀ rest, readFrom ⟨some root, none, none, none, none, none, false, verbose⟩
      ("--output_dir" :: output :: rest) = if IsOptionValue output then
        readFrom ⟨some root, none, some output, none, none, none, false, verbose⟩ rest
        else .invalid :=
    fun rest => readFrom_path
      (fun output => ⟨some root, none, output, none, none, none, false, verbose⟩)
      (show takesValue "output_dir" = true from rfl) (by decide) rfl
  have hsettings : ∀ path, readFrom ⟨some root, none, some output, none, none, none, false, verbose⟩
      ["--config", path] = if IsOptionValue path then
        readFrom ⟨some root, none, some output, none, none, some path, false, verbose⟩ []
        else .invalid :=
    fun path => readFrom_path
      (fun config => ⟨some root, none, some output, none, none, config, false, verbose⟩)
      (show takesValue "config" = true from rfl) (by decide) rfl
  simp only [List.cons_append, List.nil_append]
  rw [hproject, hfolder]
  by_cases hroot : IsOptionValue root
  · by_cases houtput : IsOptionValue output
    · cases config with
      | none => simp [hroot, houtput, readFrom, finish]
      | some path => simp [hroot, houtput, hsettings, readFrom, finish]
    · simp [houtput]
  · simp [hroot]

end Arguments

namespace Command

variable (c : Config) (a : Arguments) (p : ProjectEntry)

def Readable : Prop := IsOptionValue p.path ∧ IsOptionValue ((batch c a).folderOf p) ∧
  ∀ path ∈ a.config, IsOptionValue path

instance : Decidable (Readable c a p) := by
  unfold Readable
  infer_instance

theorem read_argumentsFor : Arguments.read ((batch c a).argumentsFor p) =
    if Readable c a p then
      .run ⟨.project p.path, (batch c a).folderOf p, "./logs", 1, a.config, a.verbose⟩
    else .invalid := by
  have hoptions := Arguments.readFrom_childOptions p.path ((batch c a).folderOf p) a.config a.verbose
  have hsettings : (batch c a).configPath = a.config := rfl
  have hverbosity : (batch c a).arguments = if a.verbose then ["--verbose"] else [] := rfl
  have hread : Arguments.read ((batch c a).argumentsFor p) =
      Arguments.readFrom ⟨none, none, none, none, none, none, false, a.verbose⟩
        (["--project", p.path, "--output_dir", (batch c a).folderOf p] ++
          (match a.config with
          | some path => ["--config", path]
          | none => [])) := by
    rw [Arguments.read, Arguments.nothing, Batch.argumentsFor, hsettings, hverbosity]
    cases a.verbose with
    | false =>
      cases a.config <;> simp only [Bool.false_eq_true, if_false, List.nil_append]
    | true =>
      cases a.config <;>
        simp only [if_true, List.cons_append, List.nil_append, Arguments.readFrom_verbose]
  rw [hread, hoptions]
  rfl

theorem readable_of_head (dataset : String) (hdataset : dataset ≠ "")
    (hdataset' : dataset.toList.head? ≠ some '-') (houtput : a.output ≠ "")
    (houtput' : a.output.toList.head? ≠ some '-') (hconfig : ∀ path ∈ a.config, IsOptionValue path)
    (htype : IsPiece p.dataType) (hname : IsPiece p.name)
    (hpath : p.path = Path.joinText (Path.joinText dataset p.dataType) p.name) :
    Readable c a p := by
  obtain ⟨hdata, hdata'⟩ := IsOptionValue.joinText hdataset hdataset' htype
  obtain ⟨hproject, hproject'⟩ := IsOptionValue.joinText hdata hdata' hname
  obtain ⟨hfolder, hfolder'⟩ := IsOptionValue.joinText houtput houtput' htype
  exact ⟨hpath ▸ .of_head hproject hproject', .of_head hfolder hfolder', hconfig⟩

end Command

end PackageModularity
