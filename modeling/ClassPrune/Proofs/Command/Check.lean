import ClassPrune.Command.Basic
import ClassPrune.Proofs.FileTree
import ClassPrune.Proofs.Strip.Report

/-!
# What the check says about stripping

The check says that a class is ok exactly when the profile of its settings finds nothing to change,
and stripping copies a class exactly when its own settings turn it off or their profile finds
nothing to change. So the two agree where both find the same profile and stripping is turned on. But
the check looks for settings around the directory of the command and stripping looks around the
file, and only stripping asks whether it is turned on.

None of this depends on how a settings file is decoded, how the words of a command line are told
apart or how byte strings are identified: the results hold for every `Toolkit`, and speak of the
settings that each command finds with it. That there are such command lines is shown for the one
of this library (`checks_plain`, `checks_dashes`).

- `Checks`, `Strips`: the command lines that check or strip one file.
- `Outcome.SaysOk`, `Outcome.Leaves`: what they come to.
- `Environment.check_says_ok_iff`, `Environment.strip_leaves_iff`: each of them by itself.
- `Environment.check_predicts_strip`: both side by side.
-/

namespace ClassPrune.Command

variable {env : Environment} {kit : Toolkit} {words words' : List String} {path : String}
  {data : Bytes} {k : ClassFile} {settings here there : Settings}

/-! ## Command lines -/

/-- The command line checks the file at a path, and no other. -/
def Checks (kit : Toolkit) (words : List String) (path : String) : Prop :=
  ∃ a, kit.readLine words = .ok (some .check, a) ∧ a.wantsHelp = false ∧ a.words = [path]

/-- The command line strips the file at a path; the settings choose the profile and the output. -/
def Strips (kit : Toolkit) (words : List String) (path : String) : Prop :=
  ∃ a, kit.readLine words = .ok (some .strip, a) ∧ a.wantsHelp = false ∧ a.words = [path] ∧
    a.value? .output = none ∧ a.value? .vm = none

/-- Such a command line comes to a check of that file alone. -/
theorem run_of_checks (h : Checks kit words path) :
    env.run words kit = env.check [path] kit := by
  obtain ⟨⟨flags, _⟩, hline, hhelp, rfl⟩ := h
  rw [Environment.run, hline]
  simp only [hhelp, Bool.false_eq_true, if_false]
  rfl

/-- And one that strips leaves the choice of the profile and of the output to the settings. -/
theorem run_of_strips (h : Strips kit words path) :
    env.run words kit = env.strip path "" "" kit := by
  obtain ⟨⟨flags, _⟩, hline, hhelp, rfl, houtput, hvm⟩ := h
  have hperform : env.perform .strip ⟨flags, [path]⟩ kit
      = env.strip path (((⟨flags, [path]⟩ : Arguments).value? .output).getD "")
        (((⟨flags, [path]⟩ : Arguments).value? .vm).getD "") kit := rfl
  rw [Environment.run, hline]
  simp only [hhelp, Bool.false_eq_true, if_false]
  rw [hperform, houtput, hvm, Option.getD_none]

/-- A verb in front takes all words behind it. -/
theorem readLine_verb (verb : Verb) (rest : List String) : readLine (verb.name :: rest)
    = (Arguments.parse (some verb) rest).map fun a => (some verb, a) := by
  have hnext : takesNext verb.name = false := by cases verb <;> decide +kernel
  have hflag : isFlagLike verb.name = false := by cases verb <;> decide +kernel
  have hname : verb.name ≠ "" ∧ verb.name ≠ "--" := by cases verb <;> decide +kernel
  have hverb : Verb.ofName? verb.name = some verb := by cases verb <;> decide +kernel
  have hplain : plainWords (verb.name :: rest) = verb.name :: plainWords rest := by
    rw [plainWords.eq_def]
    simp [hnext, hflag, hname]
  have hrest : removeVerb verb.name (verb.name :: rest) = rest := by
    rw [removeVerb.eq_def]
    simp [hnext, hflag, hname]
  simp only [readLine, splitVerb, hplain, hverb, hrest]
  rfl

/-- A word behind two dashes is plain. -/
theorem parse_dashes (verb : Option Verb) (path : String) :
    Arguments.parse verb ["--", path] = .ok { words := [path] } := by
  simp [Arguments.parse, readWords]

/-- So is a word that does not begin with a dash, without anything in front of it. -/
theorem parse_plain (verb : Option Verb) (hpath : isFlagLike path = false) :
    Arguments.parse verb [path] = .ok { words := [path] } := by
  have hdash (more : List Char) : path.toList ≠ '-' :: more := fun heq =>
    String.startsWith_string_eq_false_iff.mp hpath (heq ▸ ⟨more, rfl⟩)
  rw [Arguments.parse, readWords]
  split
  · exact absurd ‹_› (hdash _)
  · exact absurd ‹_› (hdash _)
  · exact absurd ‹_› (hdash _)
  · rfl

theorem checks_plain (hpath : isFlagLike path = false) : Checks {} ["check", path] path :=
  ⟨_, (readLine_verb .check _).trans (congrArg _ (parse_plain _ hpath)), rfl, rfl⟩

theorem strips_plain (hpath : isFlagLike path = false) : Strips {} ["strip", path] path :=
  ⟨_, (readLine_verb .strip _).trans (congrArg _ (parse_plain _ hpath)), rfl, rfl, rfl, rfl⟩

/-- Behind two dashes every path can be checked, whatever it looks like. -/
theorem checks_dashes (path : String) : Checks {} ["check", "--", path] path :=
  ⟨_, (readLine_verb .check _).trans (congrArg _ (parse_dashes _ path)), rfl, rfl⟩

theorem strips_dashes (path : String) : Strips {} ["strip", "--", path] path :=
  ⟨_, (readLine_verb .strip _).trans (congrArg _ (parse_dashes _ path)), rfl, rfl, rfl, rfl⟩

/-! ## What commands come to -/

/-- The command says that the file at a path is ok, and nothing else. -/
def Outcome.SaysOk (o : Outcome) (path : String) : Prop := o.output = printed [s!"ok\t{path}"]

/-- A file can be written at a path. -/
def Environment.Accepts (env : Environment) (path : String) : Prop :=
  ∃ place, env.tree.target env.directory path = .ok place

/-- The command succeeds, and then the file at a path has the given contents. -/
def Outcome.Leaves (o : Outcome) (env : Environment) (path : String) (data : Bytes) : Prop :=
  o.failure = none ∧ o.tree.read env.directory path = .ok data

theorem printed_singleton (line : String) : printed [line] = line ++ "\n" := by
  simp [printed]

namespace Environment

/-! ## Checking -/

/-- A report comes to `ok` when nothing changed; no number of drops and rewrites looks like it. -/
theorem statusOf_eq_ok_iff (report : Report) : statusOf report = "ok" ↔ report.changed = false := by
  rw [statusOf]
  cases report.changed with
  | false => simp
  | true =>
    refine iff_of_false (fun heq => ?_) Bool.noConfusion
    have htext := congrArg String.toList heq
    have hdirty : (toString "dirty (").toList = "dirty (".toList := rfl
    simp [hdirty] at htext

/-- What is read is written back as it was, so that only the report decides. -/
theorem checkFile_of_parse (hread : env.tree.read env.directory path = .ok data)
    (hparse : ClassFile.parse data = .ok k) (profile : Profile) :
    env.checkFile profile path = .ok (statusOf (k.strip profile).2) := by
  obtain ⟨hencode, -, -⟩ := ClassFile.parse_sound hparse
  simp only [checkFile, hread, hparse, hencode, Except.mapError, bind, Except.bind, ne_eq,
    not_true_eq_false, if_false]
  rfl

/-- **A class is ok when the profile that is found has nothing to change.** -/
theorem check_says_ok_iff
    (hsettings : Settings.find env.tree env.directory kit.decode = .ok settings)
    (hread : env.tree.read env.directory path = .ok data) (hparse : ClassFile.parse data = .ok k) :
    (env.check [path] kit).SaysOk path ↔ (k.strip settings.profile).2.changed = false := by
  rw [← statusOf_eq_ok_iff, Outcome.SaysOk]
  have hline : (env.check [path] kit).output
      = printed [statusOf (k.strip settings.profile).2 ++ "\t" ++ path] := by
    simp only [check, hsettings, List.map_cons, List.map_nil, checkLine,
      checkFile_of_parse hread hparse]
    rfl
  have hok : s!"ok\t{path}" = "ok" ++ "\t" ++ path := congrArg (· ++ path) (by decide)
  rw [hline, hok, printed_singleton, printed_singleton, String.append_left_inj,
    String.append_left_inj, String.append_left_inj]

/-! ## Stripping -/

/-- What is written is what was read when stripping is turned off or has nothing to change. -/
theorem encode_result (plan : StripPlan) (hparse : ClassFile.parse plan.data = .ok plan.classFile) :
    ∃ written, plan.result.1.encode = .ok written ∧ (written = plan.data ↔
      plan.settings.stripEnabled = false ∨
        (plan.classFile.strip plan.profile).2.changed = false) := by
  obtain ⟨hencode, hwritable, hdecoded⟩ := ClassFile.parse_sound hparse
  cases henabled : plan.settings.stripEnabled with
  | false => exact ⟨plan.data, by simp [StripPlan.result, henabled, hencode], by simp⟩
  | true =>
    obtain ⟨written, -, hwritten, -⟩ :=
      (ClassFile.strip_settled hwritable hdecoded plan.profile).parse_encode
    refine ⟨written, by simpa [StripPlan.result, henabled] using hwritten, ?_⟩
    simpa using ClassFile.encode_strip_eq_iff hparse hwritten

/-- Without flags the plan is made from the settings around the file. -/
theorem stripPlan_of_parse
    (hsettings : Settings.find env.tree (Location.ofPath env.directory (directoryPart path))
      kit.decode = .ok settings)
    (hread : env.tree.read env.directory path = .ok data) (hparse : ClassFile.parse data = .ok k) :
    env.stripPlan path "" "" kit = .ok
      ⟨settings, settings.profile, settings.outputPath path, data, k⟩ := by
  simp only [stripPlan, hsettings, hread, hparse, Except.mapError, chooseProfile, if_true, bind,
    Except.bind, pure, Except.pure]

/-- **A class is copied when its settings turn stripping off or their profile has nothing to
change**, as long as the output can be written. -/
theorem strip_leaves_iff
    (hsettings : Settings.find env.tree (Location.ofPath env.directory (directoryPart path))
      kit.decode = .ok settings)
    (hread : env.tree.read env.directory path = .ok data) (hparse : ClassFile.parse data = .ok k) :
    (env.strip path "" "" kit).Leaves env (settings.outputPath path) data ↔
      env.Accepts (settings.outputPath path) ∧
        (settings.stripEnabled = false ∨ (k.strip settings.profile).2.changed = false) := by
  have hplan := stripPlan_of_parse hsettings hread hparse
  obtain ⟨written, hwritten, hsame⟩ := encode_result
    ⟨settings, settings.profile, settings.outputPath path, data, k⟩ hparse
  rw [strip, hplan]
  simp only [hwritten]
  rw [← hsame]
  cases htarget : env.tree.target env.directory (settings.outputPath path) with
  | error error =>
    simp [FileTree.write, htarget, Outcome.Leaves, Accepts]
  | ok place =>
    have hwrite : env.tree.write env.directory (settings.outputPath path) written
        = .ok (env.tree.put place written) := by
      rw [FileTree.write, htarget]
    rw [hwrite]
    simp [Outcome.Leaves, FileTree.read_write hwrite, Accepts, htarget]

/-! ## Both side by side -/

/-- **The check predicts stripping where both find the same profile and stripping is turned on.** In
general each of them follows its own settings: the check says that a class is ok when the profile
around the directory of the command has nothing to change, and stripping copies the class when the
settings around the file turn it off or their profile has nothing to change. Whatever decodes
settings, reads command lines and identifies byte strings. -/
theorem check_predicts_strip (hchecks : Checks kit words path)
    (hstrips : Strips kit words' path)
    (hhere : Settings.find env.tree env.directory kit.decode = .ok here)
    (hthere : Settings.find env.tree (Location.ofPath env.directory (directoryPart path))
      kit.decode = .ok there)
    (hread : env.tree.read env.directory path = .ok data) (hparse : ClassFile.parse data = .ok k) :
    ((env.run words kit).SaysOk path ↔ (k.strip here.profile).2.changed = false) ∧
    ((env.run words' kit).Leaves env (there.outputPath path) data ↔
      env.Accepts (there.outputPath path) ∧
        (there.stripEnabled = false ∨ (k.strip there.profile).2.changed = false)) ∧
    (here.profile = there.profile → there.stripEnabled = true →
      env.Accepts (there.outputPath path) →
      ((env.run words kit).SaysOk path ↔
        (env.run words' kit).Leaves env (there.outputPath path) data)) := by
  rw [run_of_checks hchecks, run_of_strips hstrips]
  have hok := check_says_ok_iff hhere hread hparse
  have hcopy := strip_leaves_iff hthere hread hparse
  refine ⟨hok, hcopy, fun hprofile henabled haccepts => ?_⟩
  rw [hok, hcopy, hprofile, henabled]
  simp [haccepts]

/-- A class whose source file attribute names a class instead of a text. -/
def missourcedClass : Bytes :=
  [0xCA, 0xFE, 0xBA, 0xBE, 0, 0, 0, 52, 0, 6, 1, 0, 6, 100, 101, 109, 111, 47, 65, 7, 0, 1,
    1, 0, 16, 106, 97, 118, 97, 47, 108, 97, 110, 103, 47, 79, 98, 106, 101, 99, 116, 7, 0, 3,
    1, 0, 10, 83, 111, 117, 114, 99, 101, 70, 105, 108, 101,
    0, 0x21, 0, 2, 0, 4, 0, 0, 0, 0, 0, 0, 0, 1, 0, 5, 0, 0, 0, 2, 0, 2]

theorem ok_of_toOption {α ε : Type} {result : Except ε α} {v : α}
    (h : result.toOption = some v) : result = .ok v := by
  cases result with
  | error e => cases h
  | ok v' => exact congrArg _ (Option.some.inj h)

/-- Under every profile there is something to change: the attribute goes. -/
theorem parse_missourcedClass : ∃ k, ClassFile.parse missourcedClass = .ok k ∧
    ∀ profile ∈ Profile.builtin, (k.strip profile).2.changed = true :=
  ⟨_, rfl, by decide +kernel⟩

/-- A directory whose settings name a profile, with the class below it. -/
def namedProfile : Environment where
  tree := { files := [(["classguard.toml"], "[target]\nvm = \"hotspot8\"\n".toUTF8.toList),
                      (["lib", "A.class"], missourcedClass)] }
  directory := []

/-- The class is not ok, and it is not copied. -/
theorem check_predicts_strip_namedProfile :
    (∃ k settings, ClassFile.parse missourcedClass = .ok k ∧
      settings.stripEnabled = true ∧ (k.strip settings.profile).2.changed = true ∧
      Settings.find namedProfile.tree namedProfile.directory = .ok settings ∧
      Settings.find namedProfile.tree (Location.ofPath namedProfile.directory
        (directoryPart "lib/A.class")) = .ok settings) ∧
    ((namedProfile.run ["check", "--", "lib/A.class"]).SaysOk "lib/A.class" ↔
      (namedProfile.run ["strip", "--", "lib/A.class"]).Leaves namedProfile "lib/A.class.stripped"
        missourcedClass) := by
  have hfind : Settings.find namedProfile.tree namedProfile.directory
      = .ok { vm := "hotspot8", directory := some [] } :=
    ok_of_toOption (by decide +kernel)
  have hfind' : Settings.find namedProfile.tree (Location.ofPath namedProfile.directory
      (directoryPart "lib/A.class")) = .ok { vm := "hotspot8", directory := some [] } :=
    ok_of_toOption (by decide +kernel)
  have hread : namedProfile.tree.read namedProfile.directory "lib/A.class" = .ok missourcedClass :=
    ok_of_toOption (by decide +kernel)
  have htarget : namedProfile.tree.target namedProfile.directory "lib/A.class.stripped"
      = .ok ["lib", "A.class.stripped"] :=
    ok_of_toOption (by decide +kernel)
  obtain ⟨k, hparse, hchanged⟩ := parse_missourcedClass
  have hpredicts := check_predicts_strip (checks_dashes "lib/A.class") (strips_dashes "lib/A.class")
    hfind hfind' hread hparse
  exact ⟨⟨k, _, hparse, rfl, hchanged _ (by decide +kernel), hfind, hfind'⟩,
    hpredicts.2.2 rfl rfl ⟨_, htarget⟩⟩

/-- A directory whose settings turn stripping off, with the class in it. -/
def switchedOff : Environment where
  tree := { files := [(["classguard.toml"], "[strip]\nenabled = false\n".toUTF8.toList),
                      (["A.class"], missourcedClass)] }
  directory := []

/-- The check does not say that the class is ok, but stripping copies it. -/
theorem check_overlooks_switchedOff :
    ∃ k settings, ClassFile.parse missourcedClass = .ok k ∧
      Settings.find switchedOff.tree switchedOff.directory = .ok settings ∧
      Settings.find switchedOff.tree (Location.ofPath switchedOff.directory
        (directoryPart "A.class")) = .ok settings ∧
      ¬((switchedOff.run ["check", "A.class"]).SaysOk "A.class" ↔
        (switchedOff.run ["strip", "A.class"]).Leaves switchedOff (settings.outputPath "A.class")
          missourcedClass) := by
  have hfind : Settings.find switchedOff.tree switchedOff.directory
      = .ok { stripEnabled := false, directory := some [] } :=
    ok_of_toOption (by decide +kernel)
  have hfind' : Settings.find switchedOff.tree (Location.ofPath switchedOff.directory
      (directoryPart "A.class")) = .ok { stripEnabled := false, directory := some [] } :=
    ok_of_toOption (by decide +kernel)
  have hread : switchedOff.tree.read switchedOff.directory "A.class" = .ok missourcedClass :=
    ok_of_toOption (by decide +kernel)
  have htarget : switchedOff.tree.target switchedOff.directory "A.class.stripped"
      = .ok ["A.class.stripped"] :=
    ok_of_toOption (by decide +kernel)
  obtain ⟨k, hparse, hchanged⟩ := parse_missourcedClass
  have hok : (switchedOff.check ["A.class"]).SaysOk "A.class" ↔ _ :=
    check_says_ok_iff hfind hread hparse
  have hcopy : (switchedOff.strip "A.class" "" "").Leaves switchedOff _ missourcedClass ↔ _ :=
    strip_leaves_iff hfind' hread hparse
  refine ⟨k, _, hparse, hfind, hfind', ?_⟩
  rw [run_of_checks (checks_plain (by decide +kernel)),
    run_of_strips (strips_plain (by decide +kernel)), hok, hcopy, hchanged _ (by decide +kernel)]
  exact fun hiff => Bool.noConfusion (hiff.mpr ⟨⟨_, htarget⟩, .inl rfl⟩)

end Environment

end ClassPrune.Command
