import MemoryPack.Cs2Cpp.SchemaHash
import Mathlib.Data.List.Sort

/-!
# A run of cs2cpp (GeneratorRunner.cs)

`Run` goes through its inputs in sorted order. Each one is read, parsed and generated, and
its header is written to a path made of the name of the input alone once an output
directory is given. The C# file with the schema hash is written at the end, from the
generator that is left over from the last round.

A path is the directory it leads to and a name in it. Which directory a text leads to, and
which letters of a name the file system does not tell apart, is up to the host.
-/

namespace MemoryPack.Cs2Cpp

/-! ## Paths and files -/

structure FilePath (Dir : Type) where
  dir : Dir
  name : List Char

/-- The contents of a file. A source stands here as the tree that Roslyn makes of it. -/
inductive FileText where
  | source (u : CompilationUnit)
  | header (h : Header)
  | schemaHashCs (c : SchemaHashCs)

/-- What .NET and the operating system answer. -/
structure Host (Dir : Type) where
  /-- the directory and the file that a text names -/
  directory : String → Dir
  file : String → FilePath Dir
  directoryExists : String → Bool
  isSeparator : Char → Bool
  /-- a representative of the characters that are one in a file name -/
  fold : Char → Char
  /-- only letters differ in case -/
  fold_dot : ∀ c, fold c = fold '.' → c = '.'
  /-- `StringComparer.OrdinalIgnoreCase` on full paths -/
  compareIgnoreCase : FilePath Dir → FilePath Dir → Ordering
  /-- what Roslyn makes of a file that is no source -/
  reparse : FileText → CompilationUnit

/-- `Path.GetFileNameWithoutExtension`: the name up to its last dot. -/
def fileStem (name : List Char) : List Char :=
  match name.reverse.dropWhile (· ≠ '.') with
  | [] => name
  | _ :: rest => rest.reverse

def hppName (name : List Char) : List Char := fileStem name ++ ".hpp".toList

/-- The options that `Run` looks at. -/
structure CliOptions where
  output : Option String := none
  check : Bool := false
  emitSchemaHashCs : Option String := none
  generator : GeneratorOptions := {}

namespace GeneratorRunner

variable {Dir : Type} (H : Host Dir)

/-- The file that a path is: paths of one key are one file. -/
def key (p : FilePath Dir) : Dir × List Char := (p.dir, p.name.map H.fold)

abbrev FileSystem (Dir : Type) := Dir × List Char → Option FileText

/-! ## ResolveInputs -/

/-- `Add`: a path is taken once, whatever its case. -/
def addInput (result : List (FilePath Dir)) (p : FilePath Dir) : List (FilePath Dir) :=
  if result.any fun q => H.compareIgnoreCase q p == .eq then result else result ++ [p]

/-- `ResolveInputs`, on the files that the patterns name. -/
def resolveInputs (found : List (FilePath Dir)) : List (FilePath Dir) :=
  (found.foldl (addInput H) []).insertionSort fun a b => H.compareIgnoreCase a b ≠ .gt

/-! ## ResolveOutputPath -/

/-- `!string.IsNullOrEmpty(Path.GetExtension(path))`. -/
def hasExtension (path : List Char) : Bool :=
  match path.reverse.span (fun c => c ≠ '.' && !H.isSeparator c) with
  | (extension, '.' :: _) => !extension.isEmpty
  | _ => false

def looksLikeDir (output : String) (inputCount : Nat) : Bool :=
  inputCount > 1 || H.directoryExists output ||
    "/".toList.isSuffixOf output.toList || "\\".toList.isSuffixOf output.toList ||
    !hasExtension H output.toList

/-- The value of `-o`; an empty one is none. -/
def givenOutput (options : CliOptions) : Option String := options.output.filter (· ≠ "")

/-- `ResolveOutputPath`. -/
def resolveOutputPath (options : CliOptions) (input : FilePath Dir) (inputCount : Nat) :
    FilePath Dir :=
  match givenOutput options with
  | none => ⟨input.dir, hppName input.name⟩
  | some output =>
      if looksLikeDir H output inputCount then ⟨H.directory output, hppName input.name⟩
      else H.file output

/-! ## Run -/

structure RunState (Dir : Type) where
  fs : FileSystem Dir
  /-- what was written, in order: the `Generated:` lines -/
  written : List (FilePath Dir × FileText) := []
  failed : Bool := false
  lastGenerator : Option CppGenerator := none

/-- The tree of a file. -/
def unitOf (text : FileText) : CompilationUnit :=
  match text with
  | .source u => u
  | text => H.reparse text

variable [DecidableEq Dir]

/-- `WriteFile`. -/
def RunState.write (s : RunState Dir) (p : FilePath Dir) (text : FileText) : RunState Dir :=
  { s with fs := Function.update s.fs (key H p) (some text), written := s.written ++ [(p, text)] }

omit [DecidableEq Dir] in
/-- `CheckFile`. -/
def checkFile (fs : FileSystem Dir) (p : FilePath Dir) (expected : FileText) : Bool :=
  match fs (key H p), expected with
  | some (.header h), .header h' => h = h'
  | some (.schemaHashCs c), .schemaHashCs c' => c = c'
  | _, _ => false

/-- One round of the loop; a file that cannot be read ends the run with an exception. -/
def step (options : CliOptions) (inputCount : Nat) (s : RunState Dir) (input : FilePath Dir) :
    Option (RunState Dir) :=
  match s.fs (key H input) with
  | none => none
  | some text =>
      let generator := (unitOf H text).generator options.generator
      let header := FileText.header generator.generate
      let outputPath := resolveOutputPath H options input inputCount
      let s := { s with lastGenerator := some generator }
      if options.check then
        some { s with failed := s.failed || !checkFile H s.fs outputPath header }
      else some (s.write H outputPath header)

/-- What follows the loop. -/
def finish (options : CliOptions) (s : RunState Dir) : RunState Dir :=
  match options.emitSchemaHashCs, s.lastGenerator with
  | some csPath, some lastGenerator =>
      let csText := FileText.schemaHashCs lastGenerator.generateSchemaHashCs
      if options.check then
        { s with failed := s.failed || !checkFile H s.fs (H.file csPath) csText }
      else s.write H (H.file csPath) csText
  | _, _ => s

/-- `Run`, on the files that the patterns name: the exit code and the state at the end. -/
def run (options : CliOptions) (found : List (FilePath Dir)) (fs : FileSystem Dir) :
    Option (Nat × RunState Dir) :=
  let inputs := resolveInputs H found
  if inputs.length = 0 then some (1, { fs })
  else
    (inputs.foldlM (step H options inputs.length) { fs }).map fun s =>
      (if (finish H options s).failed then 1 else 0, finish H options s)

/-! ## What a run writes -/

section Loop

variable (options : CliOptions) (inputCount : Nat)

/-- The header of one input, with its path. -/
def headerOf (input : FilePath Dir) (u : CompilationUnit) : FilePath Dir × FileText :=
  (resolveOutputPath H options input inputCount,
    .header (u.generator options.generator).generate)

/-- The trees that the rounds read: a file may hold the header of an earlier round. -/
def readUnits : FileSystem Dir → List (FilePath Dir) → Option (List CompilationUnit)
  | _, [] => some []
  | fs, input :: inputs =>
      match fs (key H input) with
      | none => none
      | some text =>
          (readUnits (Function.update fs (key H (headerOf H options inputCount input
            (unitOf H text)).1) (some (headerOf H options inputCount input (unitOf H text)).2))
            inputs).map (unitOf H text :: ·)

/-- The files after some writes. -/
def writeAll (fs : FileSystem Dir) (ws : List (FilePath Dir × FileText)) : FileSystem Dir :=
  ws.foldl (fun fs w => Function.update fs (key H w.1) (some w.2)) fs

variable {H options inputCount}

/-- Every round writes one header and leaves its generator behind. -/
theorem loop_spec (hcheck : options.check = false) {inputs : List (FilePath Dir)}
    {s s' : RunState Dir} (h : inputs.foldlM (step H options inputCount) s = some s') :
    ∃ units, readUnits H options inputCount s.fs inputs = some units ∧
      units.length = inputs.length ∧
      s'.written = s.written ++ List.zipWith (headerOf H options inputCount) inputs units ∧
      s'.fs = writeAll H s.fs (List.zipWith (headerOf H options inputCount) inputs units) ∧
      s'.lastGenerator =
        (units.getLast?.map fun u => u.generator options.generator).or s.lastGenerator ∧
      s'.failed = s.failed := by
  induction inputs generalizing s with
  | nil =>
      obtain rfl := Option.some.inj h
      exact ⟨[], rfl, rfl, (List.append_nil _).symm, rfl, rfl, rfl⟩
  | cons input inputs ih =>
      rw [List.foldlM_cons] at h
      obtain ⟨mid, hstep, hrest⟩ := Option.bind_eq_some_iff.mp h
      rw [step] at hstep
      cases htext : s.fs (key H input) with
      | none =>
          rw [htext] at hstep
          cases hstep
      | some text =>
          rw [htext, hcheck] at hstep
          obtain rfl := Option.some.inj hstep
          obtain ⟨units, hunits, hlen, hwritten, hfs, hlast, hfailed⟩ := ih hrest
          refine ⟨unitOf H text :: units, ?_, ?_, ?_, ?_, ?_, ?_⟩
          · rw [readUnits, htext]
            exact congrArg (Option.map (unitOf H text :: ·)) hunits
          · rw [List.length_cons, List.length_cons, hlen]
          · rw [hwritten, List.zipWith_cons_cons, RunState.write, List.append_assoc]
            rfl
          · rw [hfs]
            rfl
          · rw [hlast, List.getLast?_cons]
            cases units.getLast? <;> rfl
          · exact hfailed

/-- The state in which the loop leaves a run that writes its files. -/
def afterLoop (H : Host Dir) (options : CliOptions) (inputs : List (FilePath Dir))
    (fs : FileSystem Dir) (units : List CompilationUnit) (last : CompilationUnit) : RunState Dir :=
  { fs := writeAll H fs (List.zipWith (headerOf H options inputs.length) inputs units)
    written := List.zipWith (headerOf H options inputs.length) inputs units
    lastGenerator := some (last.generator options.generator) }

theorem run_spec {found : List (FilePath Dir)} {fs : FileSystem Dir} {s : RunState Dir}
    (hcheck : options.check = false) (hrun : run H options found fs = some (0, s)) :
    ∃ units last, readUnits H options (resolveInputs H found).length fs (resolveInputs H found) =
        some units ∧
      units.length = (resolveInputs H found).length ∧ units.getLast? = some last ∧
      s = finish H options (afterLoop H options (resolveInputs H found) fs units last) := by
  rw [run] at hrun
  by_cases hempty : (resolveInputs H found).length = 0
  · rw [if_pos hempty] at hrun
    cases hrun
  · rw [if_neg hempty] at hrun
    obtain ⟨s', hloop, hs⟩ := Option.map_eq_some_iff.mp hrun
    obtain ⟨units, hunits, hlen, hwritten, hfs, hlast, hfailed⟩ := loop_spec hcheck hloop
    cases hget : units.getLast? with
    | none =>
        rw [List.getLast?_eq_none_iff] at hget
        rw [hget, List.length_nil] at hlen
        exact absurd hlen.symm hempty
    | some last =>
        refine ⟨units, last, hunits, hlen, hget, ?_⟩
        rw [← (Prod.mk.inj hs).2]
        congr 1
        obtain ⟨fs', written, failed, lastGenerator⟩ := s'
        rw [hget] at hlast
        dsimp only at hwritten hfs hlast hfailed
        rw [hwritten, hfs, hlast, hfailed]
        rfl

end Loop

/-! ## The two constants -/

section Headers

variable (options : CliOptions) (n : Nat) {inputs : List (FilePath Dir)}
  {units : List CompilationUnit}

omit [DecidableEq Dir]

/-- The headers go where the inputs send them. -/
theorem keys_headers (hlen : units.length = inputs.length) :
    (List.zipWith (headerOf H options n) inputs units).map (fun w => key H w.1) =
      inputs.map fun input => key H (resolveOutputPath H options input n) := by
  induction inputs generalizing units with
  | nil => rfl
  | cons input inputs ih =>
      cases units with
      | nil => cases hlen
      | cons u units => exact congrArg (_ :: ·) (ih (Nat.succ.inj hlen))

end Headers

section Names

variable {H}

omit [DecidableEq Dir]

theorem fold_eq_dot {c : Char} : H.fold c = H.fold '.' ↔ c = '.' := by
  constructor
  · exact H.fold_dot c
  · rintro rfl
    rfl

/-- A name with an extension of three letters. -/
theorem fileStem_append {s : List Char} {a b c : Char} (ha : a ≠ '.') (hb : b ≠ '.')
    (hc : c ≠ '.') : fileStem (s ++ ['.', a, b, c]) = s := by
  have hrev : (s ++ ['.', a, b, c]).reverse = c :: b :: a :: '.' :: s.reverse := by
    rw [List.reverse_append]
    rfl
  rw [fileStem, hrev, List.dropWhile_cons_of_pos (by simpa using hc),
    List.dropWhile_cons_of_pos (by simpa using hb), List.dropWhile_cons_of_pos (by simpa using ha),
    List.dropWhile_cons_of_neg (by simp)]
  exact List.reverse_reverse s

/-- A file that is named like a header has the stem of that header. -/
theorem fold_fileStem {name s : List Char}
    (h : name.map H.fold = (s ++ ".hpp".toList).map H.fold) :
    (fileStem name).map H.fold = s.map H.fold := by
  rw [List.map_append] at h
  obtain ⟨p, q, rfl, hp, hq⟩ := List.map_eq_append_iff.mp h
  have hlen := congrArg List.length hq
  rw [List.length_map, List.length_map] at hlen
  match q, hlen with
  | [d, a, b, c], _ =>
      have hq' : [H.fold d, H.fold a, H.fold b, H.fold c] =
          [H.fold '.', H.fold 'h', H.fold 'p', H.fold 'p'] := hq
      simp only [List.cons.injEq, and_true] at hq'
      obtain ⟨hd, ha, hb, hc⟩ := hq'
      have hne : ∀ x y : Char, y ≠ '.' → H.fold x = H.fold y → x ≠ '.' := by
        rintro x y hy hxy rfl
        exact hy (H.fold_dot y hxy.symm)
      rw [H.fold_dot d hd, fileStem_append (hne _ _ (by decide) ha) (hne _ _ (by decide) hb)
        (hne _ _ (by decide) hc)]
      exact hp

end Names

/-! ## Where the headers go -/

section Places

variable (options : CliOptions)

/-- The directory that the header of an input goes to. -/
def headerDir (input : FilePath Dir) : Dir :=
  match givenOutput options with
  | none => input.dir
  | some output => H.directory output

/-- The one input goes to the file that `-o` names. -/
def ToFile (inputCount : Nat) : Prop :=
  ∃ output, givenOutput options = some output ∧ looksLikeDir H output inputCount = false

variable {H options} {n : Nat} {a b input : FilePath Dir}

omit [DecidableEq Dir]

theorem resolveOutputPath_eq (h : ¬ ToFile H options n) (input : FilePath Dir) :
    resolveOutputPath H options input n = ⟨headerDir H options input, hppName input.name⟩ := by
  rw [resolveOutputPath, headerDir]
  cases hout : givenOutput options with
  | none => rfl
  | some output =>
      cases hlooks : looksLikeDir H output n with
      | true => exact if_pos hlooks
      | false => exact absurd ⟨output, hout, hlooks⟩ h

theorem resolveOutputPath_toFile {output : String} (hout : givenOutput options = some output)
    (h : looksLikeDir H output n = false) (input : FilePath Dir) :
    resolveOutputPath H options input n = H.file output := by
  rw [resolveOutputPath, hout]
  dsimp only
  rw [h]
  rfl

/-- Only a single input goes to a file. -/
theorem ToFile.count_le (h : ToFile H options n) : n ≤ 1 := by
  obtain ⟨output, -, hlooks⟩ := h
  by_contra hlt
  have hgt : decide (n > 1) = true := decide_eq_true (Nat.not_le.mp hlt)
  rw [looksLikeDir, hgt] at hlooks
  simp at hlooks

/-- Headers share a file if they go to one directory and have one stem. -/
theorem key_header_eq_iff (h : ¬ ToFile H options n) :
    key H (resolveOutputPath H options a n) = key H (resolveOutputPath H options b n) ↔
      headerDir H options a = headerDir H options b ∧
        (fileStem a.name).map H.fold = (fileStem b.name).map H.fold := by
  rw [resolveOutputPath_eq h, resolveOutputPath_eq h, key, key, Prod.mk.injEq, hppName, hppName,
    List.map_append, List.map_append, List.append_left_inj]

/-- An input in the place of a header has its own header there too. -/
theorem key_header_of_input (h : ¬ ToFile H options n)
    (heq : key H (resolveOutputPath H options a n) = key H b) :
    key H (resolveOutputPath H options b n) = key H (resolveOutputPath H options a n) := by
  rw [resolveOutputPath_eq h, key, key, Prod.mk.injEq, hppName] at heq
  rw [key_header_eq_iff h]
  refine ⟨?_, fold_fileStem heq.2.symm⟩
  have hdir := heq.1
  unfold headerDir at hdir ⊢
  cases hout : givenOutput options with
  | none =>
      rw [hout] at hdir
      exact hdir.symm
  | some output => rfl

end Places

/-! ## The files at the end -/

section Files

variable {H}

/-- A file that none of the writes goes to stays as it was. -/
theorem writeAll_of_notMem {ws : List (FilePath Dir × FileText)} {fs : FileSystem Dir}
    {k : Dir × List Char} (h : k ∉ ws.map fun w => key H w.1) : writeAll H fs ws k = fs k := by
  induction ws generalizing fs with
  | nil => rfl
  | cons w ws ih =>
      rw [List.map_cons, List.mem_cons, not_or] at h
      have hrest : writeAll H fs (w :: ws) k =
          writeAll H (Function.update fs (key H w.1) (some w.2)) ws k := rfl
      rw [hrest, ih h.2, Function.update_of_ne h.1]

/-- Of writes to different files every one is seen at the end. -/
theorem writeAll_of_mem {ws : List (FilePath Dir × FileText)} {fs : FileSystem Dir}
    (hnodup : (ws.map fun w => key H w.1).Nodup) {w : FilePath Dir × FileText} (h : w ∈ ws) :
    writeAll H fs ws (key H w.1) = some w.2 := by
  induction ws generalizing fs with
  | nil => cases h
  | cons v ws ih =>
      rw [List.map_cons, List.nodup_cons] at hnodup
      have hrest : writeAll H fs (v :: ws) (key H w.1) =
          writeAll H (Function.update fs (key H v.1) (some v.2)) ws (key H w.1) := rfl
      rw [hrest]
      rcases List.mem_cons.mp h with rfl | h
      · rw [writeAll_of_notMem hnodup.1, Function.update_self]
      · exact ih hnodup.2 h

/-- If no header goes to the place of a later input, every input is read as it was. -/
theorem readUnits_original {options : CliOptions} {n : Nat} {inputs : List (FilePath Dir)}
    {fs : FileSystem Dir} {units : List CompilationUnit}
    (hapart : inputs.Pairwise fun a b => key H (resolveOutputPath H options a n) ≠ key H b)
    (h : readUnits H options n fs inputs = some units) :
    List.Forall₂ (fun input u => ∃ text, fs (key H input) = some text ∧ unitOf H text = u)
      inputs units := by
  induction inputs generalizing fs units with
  | nil =>
      obtain rfl := Option.some.inj h
      exact List.Forall₂.nil
  | cons input inputs ih =>
      rw [List.pairwise_cons] at hapart
      rw [readUnits] at h
      cases htext : fs (key H input) with
      | none =>
          rw [htext] at h
          cases h
      | some text =>
          rw [htext] at h
          obtain ⟨rest, hrest, rfl⟩ := Option.map_eq_some_iff.mp h
          refine List.Forall₂.cons ⟨text, htext, rfl⟩ ?_
          have hall := (List.forall₂_and_left inputs rest).mpr ⟨hapart.1, ih hapart.2 hrest⟩
          apply hall.imp
          rintro b u ⟨hne, text', htext', hu⟩
          rw [headerOf, Function.update_of_ne hne.symm] at htext'
          exact ⟨text', htext', hu⟩

omit [DecidableEq Dir] in
theorem mem_zipWith_of_forall₂ {α β γ : Type} {R : α → β → Prop} (f : α → β → γ) {as : List α}
    {bs : List β} {a : α} (h : List.Forall₂ R as bs) (ha : a ∈ as) :
    ∃ b, R a b ∧ f a b ∈ List.zipWith f as bs := by
  induction h with
  | nil => cases ha
  | @cons _ b _ _ hab _ ih =>
      rcases List.mem_cons.mp ha with rfl | ha
      · exact ⟨b, hab, List.mem_cons_self⟩
      · obtain ⟨b', hab', hmem⟩ := ih ha
        exact ⟨b', hab', List.mem_cons_of_mem _ hmem⟩

end Files

/-! ## No header is lost -/

section Lost

variable (options : CliOptions) (inputs : List (FilePath Dir))

/-- Every input has a file of its own that holds its header. -/
structure NoHeaderLost (fs fs' : FileSystem Dir) : Prop where
  distinct : (inputs.map fun input =>
    key H (resolveOutputPath H options input inputs.length)).Nodup
  holds : ∀ input ∈ inputs, ∃ text, fs (key H input) = some text ∧
    fs' (key H (resolveOutputPath H options input inputs.length)) =
      some (.header ((unitOf H text).generator options.generator).generate)

/-- The path is where the header of `input` belongs. -/
def IsHeaderFile (input p : FilePath Dir) : Prop :=
  match givenOutput options with
  | none => key H p = (input.dir, (hppName input.name).map H.fold)
  | some output =>
      if looksLikeDir H output inputs.length = true then
        key H p = (H.directory output, (hppName input.name).map H.fold)
      else key H p = key H (H.file output)

/-- No two inputs for one directory have one stem, and the C# file is none of the headers. -/
structure OutputsApart : Prop where
  stems : inputs.Pairwise fun a b => headerDir H options a = headerDir H options b →
    (fileStem a.name).map H.fold ≠ (fileStem b.name).map H.fold
  hashFile : ∀ csPath, options.emitSchemaHashCs = some csPath →
    ∀ input ∈ inputs, ¬ IsHeaderFile H options inputs input (H.file csPath)

end Lost

section Apart

variable {H} {options : CliOptions} {inputs : List (FilePath Dir)}

omit [DecidableEq Dir]

theorem isHeaderFile_iff {input p : FilePath Dir} : IsHeaderFile H options inputs input p ↔
    key H p = key H (resolveOutputPath H options input inputs.length) := by
  rw [IsHeaderFile, resolveOutputPath]
  cases givenOutput options with
  | none => exact Iff.rfl
  | some output =>
      dsimp only
      cases looksLikeDir H output inputs.length <;> exact Iff.rfl

/-- Headers have files of their own if the stems of one directory are apart. -/
theorem nodup_headers_iff : (inputs.map fun input =>
    key H (resolveOutputPath H options input inputs.length)).Nodup ↔
      inputs.Pairwise fun a b => headerDir H options a = headerDir H options b →
        (fileStem a.name).map H.fold ≠ (fileStem b.name).map H.fold := by
  rw [List.Nodup, List.pairwise_map]
  by_cases hfile : ToFile H options inputs.length
  · -- one input at most
    have hle := hfile.count_le
    match inputs, hle with
    | [], _ => exact ⟨fun _ => List.Pairwise.nil, fun _ => List.Pairwise.nil⟩
    | [a], _ => exact ⟨fun _ => List.pairwise_singleton _ _, fun _ => List.pairwise_singleton _ _⟩
  · apply List.Pairwise.iff
    intro a b
    rw [ne_eq, key_header_eq_iff hfile, not_and]

/-- If the headers have files of their own, none of them is written over a later input. -/
theorem pairwise_inputs (h : (inputs.map fun input =>
    key H (resolveOutputPath H options input inputs.length)).Nodup) :
    inputs.Pairwise fun a b => key H (resolveOutputPath H options a inputs.length) ≠ key H b := by
  rw [List.Nodup, List.pairwise_map] at h
  by_cases hfile : ToFile H options inputs.length
  · have hle := hfile.count_le
    match inputs, hle with
    | [], _ => exact List.Pairwise.nil
    | [a], _ => exact List.pairwise_singleton _ _
  · apply h.imp
    intro a b hne heq
    exact hne (key_header_of_input hfile heq).symm

end Apart

/-- The C# file is the last one written. -/
theorem finish_fs {options : CliOptions} {csPath : String} {s : RunState Dir} {g : CppGenerator}
    (hcheck : options.check = false) (hcs : options.emitSchemaHashCs = some csPath)
    (hlast : s.lastGenerator = some g) :
    (finish H options s).fs = Function.update s.fs (key H (H.file csPath))
      (some (.schemaHashCs g.generateSchemaHashCs)) := by
  rw [finish, hcs, hlast, hcheck]
  rfl

theorem finish_fs_none {options : CliOptions} {s : RunState Dir}
    (hcs : options.emitSchemaHashCs = none) : (finish H options s).fs = s.fs := by
  rw [finish, hcs]

/-- A run keeps every header exactly when no two inputs compete for a file and the C# file
is written elsewhere. -/
theorem noHeaderLost_iff (H : Host Dir) (options : CliOptions) (found : List (FilePath Dir))
    (fs : FileSystem Dir) (s : RunState Dir) (hcheck : options.check = false)
    (hrun : run H options found fs = some (0, s)) :
    NoHeaderLost H options (resolveInputs H found) fs s.fs ↔
      OutputsApart H options (resolveInputs H found) := by
  obtain ⟨units, last, hunits, hlen, -, rfl⟩ := run_spec hcheck hrun
  generalize resolveInputs H found = inputs at *
  constructor
  · rintro ⟨hdistinct, hholds⟩
    refine ⟨nodup_headers_iff.mp hdistinct, ?_⟩
    intro csPath hcs input hinput hplace
    obtain ⟨text, -, htext⟩ := hholds input hinput
    rw [← isHeaderFile_iff.mp hplace, finish_fs H hcheck hcs rfl, Function.update_self] at htext
    cases htext
  · rintro ⟨hstems, hhash⟩
    have hdistinct := nodup_headers_iff.mpr hstems
    refine ⟨hdistinct, ?_⟩
    intro input hinput
    have horiginal := readUnits_original (pairwise_inputs hdistinct) hunits
    obtain ⟨u, ⟨text, htext, rfl⟩, hmem⟩ :=
      mem_zipWith_of_forall₂ (headerOf H options inputs.length) horiginal hinput
    refine ⟨text, htext, ?_⟩
    rw [← keys_headers H options inputs.length hlen] at hdistinct
    have hheader : writeAll H fs (List.zipWith (headerOf H options inputs.length) inputs units) _ =
        _ := writeAll_of_mem hdistinct hmem
    cases hcs : options.emitSchemaHashCs with
    | none =>
        rw [finish_fs_none H hcs]
        exact hheader
    | some csPath =>
        have hne := mt isHeaderFile_iff.mpr (hhash csPath hcs input hinput)
        rw [finish_fs H hcheck hcs rfl, Function.update_of_ne (Ne.symm hne)]
        exact hheader

/-! ## Two servers, one directory -/

/-- A path split at its last slash. -/
def splitPath (path : String) : FilePath String :=
  let name := (path.toList.reverse.takeWhile (· ≠ '/')).reverse
  ⟨String.ofList (path.toList.take (path.length - name.length - 1)), name⟩

/-- A file system that tells all letters apart. -/
def posix : Host String where
  directory := id
  file := splitPath
  directoryExists _ := false
  isSeparator c := c == '/'
  fold := id
  fold_dot _ h := h
  compareIgnoreCase p q :=
    compareOfLessAndEq ((p.dir.toList ++ '/' :: p.name).map fun c => c.toUpper.toNat)
      ((q.dir.toList ++ '/' :: q.name).map fun c => c.toUpper.toNat)
  reparse _ := ⟨none, [], []⟩

/-- `PacketId { Login = 1 }` and the packet it names. -/
def chatUnit : CompilationUnit where
  csNamespace := some "ChatServer"
  enums := [⟨"PacketId", none, [⟨"Login", some (.number true 1 .none)⟩]⟩]
  types := [
    { name := "Login"
      kind := .classKind
      members := [{ name := "Name", type := .predefined "string", kind := .property true }] }]

def gameUnit : CompilationUnit where
  csNamespace := some "GameServer"
  enums := []
  types := [
    { name := "Move"
      kind := .classKind
      members := [{ name := "X", type := .predefined "int", kind := .property true }] }]

def chatInput (name : String) : FilePath String := ⟨"/samples/ChatServer", name.toList⟩

def gameInput (name : String) : FilePath String := ⟨"/samples/GameServer", name.toList⟩

def twoFiles (chat game : FilePath String) : FileSystem String :=
  fun k => if k = key posix chat then some (.source chatUnit)
    else if k = key posix game then some (.source gameUnit) else none

/-- The glob of the documentation with two servers: one `Packets.hpp` for both, and the
header of the first is gone. -/
theorem packets_header_lost : ∃ s, run posix { output := some "build/generated" }
      [chatInput "Packets.cs", gameInput "Packets.cs"]
      (twoFiles (chatInput "Packets.cs") (gameInput "Packets.cs")) = some (0, s) ∧
    resolveInputs posix [chatInput "Packets.cs", gameInput "Packets.cs"] =
      [chatInput "Packets.cs", gameInput "Packets.cs"] ∧
    ¬ NoHeaderLost posix { output := some "build/generated" }
      [chatInput "Packets.cs", gameInput "Packets.cs"]
      (twoFiles (chatInput "Packets.cs") (gameInput "Packets.cs")) s.fs ∧
    s.fs ("build/generated", "Packets.hpp".toList) =
      some (.header (gameUnit.generator {}).generate) ∧
    (gameUnit.generator {}).generate ≠ (chatUnit.generator {}).generate := by
  refine ⟨_, rfl, rfl, ?_, rfl, ?_⟩
  · rintro ⟨hdistinct, -⟩
    exact absurd hdistinct (by decide)
  · intro h
    exact absurd (congrArg (fun h => h.enums.length) h) (by decide)

/-- Two names, two headers. -/
theorem chat_and_game_kept : ∃ s, run posix { output := some "build/generated" }
      [chatInput "Chat.cs", gameInput "Game.cs"]
      (twoFiles (chatInput "Chat.cs") (gameInput "Game.cs")) = some (0, s) ∧
    NoHeaderLost posix { output := some "build/generated" }
      (resolveInputs posix [chatInput "Chat.cs", gameInput "Game.cs"])
      (twoFiles (chatInput "Chat.cs") (gameInput "Game.cs")) s.fs :=
  ⟨_, rfl, (noHeaderLost_iff _ _ _ _ _ rfl rfl).mpr
    ⟨by decide, by
      intro csPath h
      cases h⟩⟩

end GeneratorRunner

end MemoryPack.Cs2Cpp
