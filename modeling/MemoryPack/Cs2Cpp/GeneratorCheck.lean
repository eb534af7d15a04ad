import MemoryPack.Cs2Cpp.GeneratorRunner

/-!
# `--check`

A run with `--check` goes the way of a run that writes, and compares where the other one
writes. It touches no file, and it passes exactly where a run without the option would leave
every file as it is and write none of them twice with different contents.

So a build that generates and then checks passes, and may generate again, as long as its
outputs are not its inputs and no two of them are sent to one file.
-/

namespace MemoryPack.Cs2Cpp

namespace GeneratorRunner

variable {Dir : Type} (H : Host Dir)

/-! ## Writes to one file -/

/-- No file is written with two contents. -/
def WrittenAlike (ws : List (FilePath Dir × FileText)) : Prop :=
  ∀ w ∈ ws, ∀ w' ∈ ws, key H w.1 = key H w'.1 → w.2 = w'.2

/-- The files hold what is to be written to them. -/
def Current (fs : FileSystem Dir) (ws : List (FilePath Dir × FileText)) : Prop :=
  ∀ w ∈ ws, fs (key H w.1) = some w.2

/-- No output of a run goes over one of its inputs. -/
def InputsKept (inputs : List (FilePath Dir)) (ws : List (FilePath Dir × FileText)) : Prop :=
  ∀ input ∈ inputs, ∀ w ∈ ws, key H w.1 ≠ key H input

section Writes

variable {H} [DecidableEq Dir] {fs : FileSystem Dir} {ws : List (FilePath Dir × FileText)}

theorem writeAll_cons (w : FilePath Dir × FileText) : writeAll H fs (w :: ws) =
    writeAll H (Function.update fs (key H w.1) (some w.2)) ws := rfl

theorem writeAll_append (ws' : List (FilePath Dir × FileText)) :
    writeAll H fs (ws ++ ws') = writeAll H (writeAll H fs ws) ws' := List.foldl_append

/-- The last write to a file is the one that is seen. -/
theorem exists_writeAll (fs : FileSystem Dir) {k : Dir × List Char}
    (h : k ∈ ws.map fun w => key H w.1) :
    ∃ w ∈ ws, key H w.1 = k ∧ writeAll H fs ws k = some w.2 := by
  induction ws generalizing fs with
  | nil => cases h
  | cons w ws ih =>
    rw [writeAll_cons]
    by_cases hlater : k ∈ ws.map fun w => key H w.1
    · obtain ⟨w', hmem, hkey, hseen⟩ := ih _ hlater
      exact ⟨w', List.mem_cons_of_mem _ hmem, hkey, hseen⟩
    · rw [List.map_cons, List.mem_cons] at h
      obtain rfl := h.resolve_right hlater
      refine ⟨w, List.mem_cons_self, rfl, ?_⟩
      rw [writeAll_of_notMem hlater, Function.update_self]

/-- Every write is seen if no two of them disagree. -/
theorem current_writeAll_iff (fs : FileSystem Dir) :
    Current H (writeAll H fs ws) ws ↔ WrittenAlike H ws := by
  constructor
  · intro h w hw w' hw' hkey
    have hseen := h w hw
    rw [hkey, h w' hw'] at hseen
    exact (Option.some.inj hseen).symm
  · intro h w hw
    have hkeys : key H w.1 ∈ ws.map fun w => key H w.1 := List.mem_map_of_mem hw
    obtain ⟨w', hmem, hkey, hseen⟩ := exists_writeAll fs hkeys
    rw [hseen, h w' hmem w hw hkey]

omit [DecidableEq Dir] in
theorem current_append {ws' : List (FilePath Dir × FileText)} :
    Current H fs (ws ++ ws') ↔ Current H fs ws ∧ Current H fs ws' := List.forall_mem_append

/-- Writing what is there changes nothing. -/
theorem writeAll_current (h : Current H fs ws) : writeAll H fs ws = fs := by
  induction ws with
  | nil => rfl
  | cons w ws ih =>
    obtain ⟨hw, hws⟩ := List.forall_mem_cons.mp h
    rw [writeAll_cons, ← hw, Function.update_eq_self]
    exact ih hws

/-- What is seen of a file that was written does not depend on the files before. -/
theorem writeAll_congr {k : Dir × List Char} (h : k ∈ ws.map fun w => key H w.1)
    (fs fs' : FileSystem Dir) : writeAll H fs ws k = writeAll H fs' ws k := by
  induction ws generalizing fs fs' with
  | nil => cases h
  | cons w ws ih =>
    rw [writeAll_cons, writeAll_cons]
    by_cases hlater : k ∈ ws.map fun w => key H w.1
    · exact ih hlater _ _
    · rw [List.map_cons, List.mem_cons] at h
      obtain rfl := h.resolve_right hlater
      rw [writeAll_of_notMem hlater, writeAll_of_notMem hlater, Function.update_self,
        Function.update_self]

/-- The same writes a second time change nothing. -/
theorem writeAll_twice : writeAll H (writeAll H fs ws) ws = writeAll H fs ws := by
  funext k
  by_cases hk : k ∈ ws.map fun w => key H w.1
  · exact writeAll_congr hk _ _
  · exact writeAll_of_notMem hk

end Writes

/-! ## What a run is to write -/

section Outputs

/-- The tree that `Parse` makes of an input. -/
def readUnit (fs : FileSystem Dir) (input : FilePath Dir) : Option CompilationUnit :=
  (fs (key H input)).map (unitOf H)

/-- The C# file, from the generator of the last round. -/
def hashFile (options : CliOptions) (last : CompilationUnit) : List (FilePath Dir × FileText) :=
  options.emitSchemaHashCs.toList.map fun csPath =>
    (H.file csPath, .schemaHashCs (last.generator options.generator).generateSchemaHashCs)

/-- The headers, and the C# file behind them. -/
def outputs (options : CliOptions) (inputs : List (FilePath Dir)) (units : List CompilationUnit)
    (last : CompilationUnit) : List (FilePath Dir × FileText) :=
  List.zipWith (headerOf H options inputs.length) inputs units ++ hashFile H options last

end Outputs

/-! ## A run that writes -/

section Generate

variable {H} [DecidableEq Dir] {options : CliOptions} {n : Nat} {inputs found : List (FilePath Dir)}
  {fs : FileSystem Dir} {units : List CompilationUnit} {last : CompilationUnit}

theorem readUnits_cons (input : FilePath Dir) (inputs : List (FilePath Dir)) :
    readUnits H options n fs (input :: inputs) = (readUnit H fs input).bind fun u =>
      (readUnits H options n (Function.update fs (key H (headerOf H options n input u).1)
        (some (headerOf H options n input u).2)) inputs).map (u :: ·) := by
  rw [readUnits, readUnit]
  cases fs (key H input) <;> rfl

/-- The loop returns if it can read its inputs. -/
theorem loop_returns (hcheck : options.check = false) {s : RunState Dir}
    (h : readUnits H options n s.fs inputs = some units) :
    ∃ s', inputs.foldlM (step H options n) s = some s' := by
  induction inputs generalizing s units with
  | nil => exact ⟨s, rfl⟩
  | cons input inputs ih =>
    rw [readUnits] at h
    rw [List.foldlM_cons, step]
    cases htext : s.fs (key H input) with
    | none =>
      rw [htext] at h
      cases h
    | some text =>
      rw [htext] at h
      obtain ⟨rest, hrest, -⟩ := Option.map_eq_some_iff.mp h
      rw [hcheck]
      exact ih hrest

/-- The state at the end of a run that writes its files. -/
def generated (H : Host Dir) (options : CliOptions) (inputs : List (FilePath Dir))
    (fs : FileSystem Dir) (units : List CompilationUnit) (last : CompilationUnit) :
    RunState Dir where
  fs := writeAll H fs (outputs H options inputs units last)
  written := outputs H options inputs units last
  lastGenerator := some (last.generator options.generator)

theorem finish_afterLoop (hcheck : options.check = false) :
    finish H options (afterLoop H options inputs fs units last) =
      generated H options inputs fs units last := by
  unfold finish generated outputs hashFile
  cases options.emitSchemaHashCs with
  | none =>
    simp only [Option.toList_none, List.map_nil, List.append_nil]
    rfl
  | some csPath =>
    rw [hcheck, writeAll_append]
    rfl

/-- A run that writes its files reads its inputs one after the other, and nothing else can
go wrong. -/
theorem run_generate_iff (hcheck : options.check = false) {s : RunState Dir} :
    run H options found fs = some (0, s) ↔ ∃ units last,
      readUnits H options (resolveInputs H found).length fs (resolveInputs H found) = some units ∧
        units.getLast? = some last ∧
        s = generated H options (resolveInputs H found) fs units last := by
  constructor
  · intro hrun
    obtain ⟨units, last, hunits, -, hlast, rfl⟩ := run_spec hcheck hrun
    exact ⟨units, last, hunits, hlast, finish_afterLoop hcheck⟩
  · rintro ⟨units, last, hunits, hlast, rfl⟩
    obtain ⟨s', hloop⟩ := loop_returns hcheck (s := { fs := fs }) hunits
    obtain ⟨units', hunits', hlen, hwritten, hfs, hgenerator, hfailed⟩ := loop_spec hcheck hloop
    obtain rfl := Option.some.inj (hunits.symm.trans hunits')
    have hempty : (resolveInputs H found).length ≠ 0 := by
      rw [← hlen]
      rintro hnil
      rw [List.length_eq_zero_iff.mp hnil] at hlast
      cases hlast
    have hs' : s' = afterLoop H options (resolveInputs H found) fs units last := by
      obtain ⟨fs', written, failed, lastGenerator⟩ := s'
      rw [hlast] at hgenerator
      dsimp only at hwritten hfs hgenerator hfailed
      rw [hwritten, hfs, hgenerator, hfailed]
      rfl
    rw [run, if_neg hempty, hloop, hs', Option.map_some, finish_afterLoop hcheck]
    rfl

omit [DecidableEq Dir] in
theorem mapM_readUnit_cons (input : FilePath Dir) (inputs : List (FilePath Dir)) :
    (input :: inputs).mapM (readUnit H fs) = (readUnit H fs input).bind fun u =>
      (inputs.mapM (readUnit H fs)).map (u :: ·) := by
  rw [List.mapM_cons]
  cases readUnit H fs input with
  | none => rfl
  | some u => cases inputs.mapM (readUnit H fs) <;> rfl

/-- Where every header is in place already, the inputs are read as they are. -/
theorem readUnits_current (h : Current H fs (List.zipWith (headerOf H options n) inputs units)) :
    readUnits H options n fs inputs = some units ↔ inputs.mapM (readUnit H fs) = some units := by
  induction inputs generalizing units with
  | nil => exact Iff.rfl
  | cons input inputs ih =>
    rw [readUnits_cons, mapM_readUnit_cons]
    cases hunit : readUnit H fs input with
    | none => exact Iff.rfl
    | some u =>
      rw [Option.bind_some, Option.bind_some, Option.map_eq_some_iff, Option.map_eq_some_iff]
      refine exists_congr fun rest => and_congr_left ?_
      rintro rfl
      obtain ⟨hheader, hrest⟩ := List.forall_mem_cons.mp h
      rw [← hheader, Function.update_eq_self]
      exact ih hrest

/-- If no header goes over an input, the inputs are read as they are. -/
theorem readUnits_kept {fs' : FileSystem Dir}
    (hkept : ∀ a ∈ inputs, ∀ b ∈ inputs, key H (resolveOutputPath H options a n) ≠ key H b)
    (hsame : ∀ b ∈ inputs, fs (key H b) = fs' (key H b)) :
    readUnits H options n fs inputs = inputs.mapM (readUnit H fs') := by
  induction inputs generalizing fs with
  | nil => rfl
  | cons input inputs ih =>
    have hread : readUnit H fs input = readUnit H fs' input := by
      rw [readUnit, readUnit, hsame input List.mem_cons_self]
    rw [readUnits_cons, mapM_readUnit_cons, hread]
    cases readUnit H fs' input with
    | none => rfl
    | some u =>
      rw [Option.bind_some, Option.bind_some, ih]
      · intro a ha b hb
        exact hkept a (List.mem_cons_of_mem _ ha) b (List.mem_cons_of_mem _ hb)
      · intro b hb
        have hne := hkept input List.mem_cons_self b (List.mem_cons_of_mem _ hb)
        rw [headerOf, Function.update_of_ne hne.symm]
        exact hsame b (List.mem_cons_of_mem _ hb)

end Generate

/-! ## A run that checks -/

section Check

variable {H} [DecidableEq Dir] {options : CliOptions} {n : Nat} {inputs found : List (FilePath Dir)}
  {fs : FileSystem Dir} {units : List CompilationUnit} {last : CompilationUnit}

omit [DecidableEq Dir] in
theorem checkFile_header {p : FilePath Dir} {h : Header} :
    checkFile H fs p (.header h) = true ↔ fs (key H p) = some (.header h) := by
  unfold checkFile
  rcases fs (key H p) with _ | text
  · simp
  · cases text <;> simp

omit [DecidableEq Dir] in
theorem checkFile_schemaHashCs {p : FilePath Dir} {c : SchemaHashCs} :
    checkFile H fs p (.schemaHashCs c) = true ↔ fs (key H p) = some (.schemaHashCs c) := by
  unfold checkFile
  rcases fs (key H p) with _ | text
  · simp
  · cases text <;> simp

omit [DecidableEq Dir] in
/-- The headers that a check compares are in place. -/
theorem all_checkFile_iff : (List.zipWith (headerOf H options n) inputs units).all
    (fun w => checkFile H fs w.1 w.2) = true ↔
      Current H fs (List.zipWith (headerOf H options n) inputs units) := by
  rw [List.all_eq_true]
  apply forall₂_congr
  rintro ⟨p, text⟩ hw
  obtain ⟨input, u, -, hheader⟩ : ∃ input u, input ∈ inputs ∧ headerOf H options n input u =
      (p, text) := by
    obtain ⟨i, hi, hget⟩ := List.mem_iff_getElem.mp hw
    rw [List.getElem_zipWith] at hget
    exact ⟨_, _, List.getElem_mem _, hget⟩
  obtain ⟨rfl, rfl⟩ := Prod.mk.inj hheader
  exact checkFile_header

/-- The rounds of a check read the inputs as they are and write nothing. -/
theorem checkLoop_eq (hcheck : options.check = true) (s : RunState Dir) :
    inputs.foldlM (step H options n) s = (inputs.mapM (readUnit H s.fs)).map fun units =>
      { s with
        failed := s.failed || !(List.zipWith (headerOf H options n) inputs units).all
          fun w => checkFile H s.fs w.1 w.2
        lastGenerator :=
          (units.getLast?.map fun u => u.generator options.generator).or s.lastGenerator } := by
  induction inputs generalizing s with
  | nil => simp
  | cons input inputs ih =>
    rw [List.foldlM_cons, mapM_readUnit_cons, step, readUnit]
    cases htext : s.fs (key H input) with
    | none => rfl
    | some text =>
      rw [hcheck, Option.map_some, Option.bind_some]
      refine (ih _).trans ?_
      rw [Option.map_map]
      apply congrArg (fun f => Option.map f (inputs.mapM (readUnit H s.fs)))
      funext units
      have hlast : ∀ m : Option CppGenerator, (units.getLast?.map fun u =>
          u.generator options.generator).or (some ((unitOf H text).generator options.generator)) =
            ((unitOf H text :: units).getLast?.map fun u =>
              u.generator options.generator).or m := by
        intro m
        rw [List.getLast?_cons]
        cases units.getLast? <;> rfl
      rw [Function.comp_apply, List.zipWith_cons_cons, List.all_cons, Bool.not_and, ← Bool.or_assoc,
        ← hlast]
      rfl

omit [DecidableEq Dir] in
theorem all_checkFile_hashFile : (hashFile H options last).all
    (fun w => checkFile H fs w.1 w.2) = true ↔ Current H fs (hashFile H options last) := by
  rw [List.all_eq_true]
  apply forall₂_congr
  intro w hw
  obtain ⟨csPath, -, rfl⟩ := List.mem_map.mp hw
  exact checkFile_schemaHashCs

/-- The C# file is compared behind the headers. -/
theorem finish_check (last : CompilationUnit) (hcheck : options.check = true) {s : RunState Dir}
    (hgenerator : s.lastGenerator = some (last.generator options.generator)) :
    finish H options s = { s with
      failed := s.failed || !(hashFile H options last).all fun w => checkFile H s.fs w.1 w.2 } := by
  obtain ⟨fs, written, failed, lastGenerator⟩ := s
  obtain rfl : lastGenerator = some (last.generator options.generator) := hgenerator
  unfold finish hashFile
  cases options.emitSchemaHashCs with
  | none => simp
  | some csPath => simp [hcheck]

/-- A check of inputs that can be read comes to an end: it touches no file, and it passes if
every output is in place. -/
theorem run_check (hcheck : options.check = true)
    (hread : (resolveInputs H found).mapM (readUnit H fs) = some units)
    (hlast : units.getLast? = some last) :
    ∃ code s, run H options found fs = some (code, s) ∧ s.fs = fs ∧ s.written = [] ∧
      (code = 0 ↔ Current H fs (outputs H options (resolveInputs H found) units last)) := by
  have hempty : (resolveInputs H found).length ≠ 0 := by
    intro hnil
    rw [List.length_eq_zero_iff.mp hnil] at hread
    obtain rfl := Option.some.inj hread
    cases hlast
  rw [run, if_neg hempty, checkLoop_eq hcheck, hread, Option.map_some, Option.map_some, hlast,
    finish_check last hcheck rfl]
  refine ⟨_, _, rfl, rfl, rfl, ?_⟩
  rw [outputs, current_append, ← all_checkFile_iff, ← all_checkFile_hashFile]
  simp

/-- Every check that returns has read its inputs, or had none. -/
theorem run_check_returns (hcheck : options.check = true) {code : Nat} {s : RunState Dir}
    (hrun : run H options found fs = some (code, s)) :
    ((resolveInputs H found).length = 0 ∧ code = 1 ∧ s = { fs := fs }) ∨ ∃ units last,
      (resolveInputs H found).mapM (readUnit H fs) = some units ∧ units.getLast? = some last := by
  rw [run] at hrun
  by_cases hempty : (resolveInputs H found).length = 0
  · rw [if_pos hempty] at hrun
    obtain ⟨rfl, rfl⟩ := Prod.mk.inj (Option.some.inj hrun)
    exact .inl ⟨hempty, rfl, rfl⟩
  · rw [if_neg hempty, checkLoop_eq hcheck] at hrun
    obtain ⟨s', hloop, -⟩ := Option.map_eq_some_iff.mp hrun
    obtain ⟨units, hunits, -⟩ := Option.map_eq_some_iff.mp hloop
    right
    cases hlast : units.getLast? with
    | some last => exact ⟨units, last, hunits, hlast⟩
    | none =>
      -- one tree for each input
      rw [List.getLast?_eq_none_iff.mp hlast] at hunits
      cases hinputs : resolveInputs H found with
      | nil => exact absurd (congrArg List.length hinputs) hempty
      | cons input inputs =>
        rw [hinputs, mapM_readUnit_cons] at hunits
        obtain ⟨u, -, hrest⟩ := Option.bind_eq_some_iff.mp hunits
        obtain ⟨us, -, hcons⟩ := Option.map_eq_some_iff.mp hrest
        cases hcons

end Check

/-! ## Generating and checking -/

section Agreement

variable [DecidableEq Dir]

/-- `--check` writes nothing, and it passes exactly where generating would leave every file as
it is and write none of them twice with different contents. -/
theorem check_iff_nothing_to_write (options : CliOptions) (hcheck : options.check = false)
    (found : List (FilePath Dir)) (fs : FileSystem Dir) (code : Nat) (s : RunState Dir)
    (hrun : run H { options with check := true } found fs = some (code, s)) :
    s.fs = fs ∧ s.written = [] ∧ (code = 0 ↔ ∃ s', run H options found fs = some (0, s') ∧
      s'.fs = fs ∧ WrittenAlike H s'.written) := by
  rcases run_check_returns rfl hrun with ⟨hempty, rfl, rfl⟩ | ⟨units, last, hunits, hlast⟩
  · refine ⟨rfl, rfl, iff_of_false (by decide) ?_⟩
    rintro ⟨s', hgenerate, -⟩
    rw [run, if_pos hempty] at hgenerate
    cases hgenerate
  · have hrun' : ∃ code s, run H { options with check := true } found fs = some (code, s) ∧
        s.fs = fs ∧ s.written = [] ∧
        (code = 0 ↔ Current H fs (outputs H options (resolveInputs H found) units last)) :=
      run_check rfl hunits hlast
    obtain ⟨code', s', hrun', hfs, hwritten, hcode⟩ := hrun'
    obtain ⟨rfl, rfl⟩ := Prod.mk.inj (Option.some.inj (hrun.symm.trans hrun'))
    refine ⟨hfs, hwritten, hcode.trans ⟨?_, ?_⟩⟩
    · intro hcurrent
      have hread := (readUnits_current (current_append.mp hcurrent).1).mpr hunits
      have hsame := writeAll_current hcurrent
      refine ⟨generated H options (resolveInputs H found) fs units last,
        (run_generate_iff hcheck).mpr ⟨units, last, hread, hlast, rfl⟩, hsame, ?_⟩
      apply (current_writeAll_iff fs).mp
      show Current H (writeAll H fs (outputs H options (resolveInputs H found) units last)) _
      rw [hsame]
      exact hcurrent
    · rintro ⟨s', hgenerate, hsame, halike⟩
      obtain ⟨units', last', hread, hlast', rfl⟩ := (run_generate_iff hcheck).mp hgenerate
      have hcurrent := (current_writeAll_iff fs).mpr halike
      have hunchanged : writeAll H fs (generated H options (resolveInputs H found) fs units'
          last').written = fs := hsame
      rw [hunchanged] at hcurrent
      -- the inputs were read as they are, since nothing was changed
      have hunits' := (readUnits_current (current_append.mp hcurrent).1).mp hread
      obtain rfl := Option.some.inj (hunits.symm.trans hunits')
      obtain rfl := Option.some.inj (hlast.symm.trans hlast')
      exact hcurrent

/-- Outputs that are apart are written once. -/
theorem writtenAlike_of_apart {options : CliOptions} {inputs : List (FilePath Dir)}
    {units : List CompilationUnit} {last : CompilationUnit} (hlen : units.length = inputs.length)
    (h : OutputsApart H options inputs) : WrittenAlike H (outputs H options inputs units last) := by
  have hnodup : ((outputs H options inputs units last).map fun w => key H w.1).Nodup := by
    rw [outputs, List.map_append, keys_headers H options inputs.length hlen, hashFile]
    cases hcs : options.emitSchemaHashCs with
    | none => simpa using nodup_headers_iff.mpr h.stems
    | some csPath =>
      have hplace : ∀ input ∈ inputs,
          key H (resolveOutputPath H options input inputs.length) ≠ key H (H.file csPath) := by
        intro input hinput heq
        exact h.hashFile csPath hcs input hinput (isHeaderFile_iff.mpr heq.symm)
      apply List.nodup_append.mpr
      refine ⟨nodup_headers_iff.mpr h.stems, List.nodup_singleton _, ?_⟩
      intro k hk k' hk'
      obtain ⟨input, hinput, rfl⟩ := List.mem_map.mp hk
      rw [List.mem_singleton.mp hk']
      exact hplace input hinput
  apply (current_writeAll_iff fun _ => none).mp
  intro w hw
  exact writeAll_of_mem hnodup hw

/-- A run that keeps its inputs can be repeated, and changes nothing then. A check behind it
touches no file, and passes exactly if no file was written with two contents; outputs that
are apart are enough for that. -/
theorem generate_then_check (options : CliOptions) (hcheck : options.check = false)
    (found : List (FilePath Dir)) (fs : FileSystem Dir) (s : RunState Dir)
    (hrun : run H options found fs = some (0, s))
    (hkept : InputsKept H (resolveInputs H found) s.written) :
    (∃ again, run H options found s.fs = some (0, again) ∧ again.fs = s.fs ∧
      again.written = s.written) ∧
    (∃ code checked, run H { options with check := true } found s.fs = some (code, checked) ∧
      checked.fs = s.fs ∧ checked.written = [] ∧ (code = 0 ↔ WrittenAlike H s.written)) ∧
    (OutputsApart H options (resolveInputs H found) → WrittenAlike H s.written) := by
  obtain ⟨units, last, hread, hlen, hlast, -⟩ := run_spec hcheck hrun
  obtain ⟨units', last', hread', hlast', rfl⟩ := (run_generate_iff hcheck).mp hrun
  obtain rfl := Option.some.inj (hread.symm.trans hread')
  obtain rfl := Option.some.inj (hlast.symm.trans hlast')
  have hapart : ∀ a ∈ resolveInputs H found, ∀ b ∈ resolveInputs H found,
      key H (resolveOutputPath H options a (resolveInputs H found).length) ≠ key H b := by
    intro a ha b hb heq
    have hmem := List.mem_map_of_mem (f := fun input =>
      key H (resolveOutputPath H options input (resolveInputs H found).length)) ha
    rw [← keys_headers H options (resolveInputs H found).length hlen] at hmem
    obtain ⟨w, hw, hkey⟩ := List.mem_map.mp hmem
    exact hkept b hb w (List.mem_append_left _ hw) (hkey.trans heq)
  have hinputs : ∀ b ∈ resolveInputs H found,
      (generated H options (resolveInputs H found) fs units last).fs (key H b) = fs (key H b) := by
    intro b hb
    apply writeAll_of_notMem
    intro hmem
    obtain ⟨w, hw, hkey⟩ := List.mem_map.mp hmem
    exact hkept b hb w hw hkey
  -- both runs read the trees that the first one has read
  have horiginal : (resolveInputs H found).mapM (readUnit H fs) = some units :=
    (readUnits_kept hapart fun _ _ => rfl).symm.trans hread
  have hagain := (readUnits_kept hapart hinputs).trans horiginal
  have hsecond := (readUnits_kept hapart fun _ _ => rfl).symm.trans hagain
  refine ⟨?_, ?_, ?_⟩
  · exact ⟨_, (run_generate_iff hcheck).mpr ⟨units, last, hagain, hlast, rfl⟩, writeAll_twice, rfl⟩
  · have hchecked : ∃ code s, run H { options with check := true } found _ = some (code, s) ∧
        s.fs = _ ∧ s.written = [] ∧
        (code = 0 ↔ Current H _ (outputs H options (resolveInputs H found) units last)) :=
      run_check rfl hsecond hlast
    obtain ⟨code, checked, hrun', hfs, hwritten, hcode⟩ := hchecked
    exact ⟨code, checked, hrun', hfs, hwritten, hcode.trans (current_writeAll_iff fs)⟩
  · exact writtenAlike_of_apart H hlen

end Agreement

/-! ## Two servers, checked -/

/-- Nothing is generated yet: the check fails, and there is something to write. -/
theorem check_iff_nothing_to_write_twoFiles :
    ∃ s, run posix { output := some "build/generated", check := true }
        [chatInput "Chat.cs", gameInput "Game.cs"]
        (twoFiles (chatInput "Chat.cs") (gameInput "Game.cs")) = some (1, s) ∧ s.written = [] ∧
      ¬ ∃ s', run posix { output := some "build/generated" }
          [chatInput "Chat.cs", gameInput "Game.cs"]
          (twoFiles (chatInput "Chat.cs") (gameInput "Game.cs")) = some (0, s') ∧
        s'.fs = twoFiles (chatInput "Chat.cs") (gameInput "Game.cs") ∧
        WrittenAlike posix s'.written := by
  have hcheck := check_iff_nothing_to_write posix { output := some "build/generated" } rfl
    [chatInput "Chat.cs", gameInput "Game.cs"]
    (twoFiles (chatInput "Chat.cs") (gameInput "Game.cs")) 1 _ rfl
  refine ⟨_, rfl, hcheck.2.1, ?_⟩
  intro h
  exact absurd (hcheck.2.2.mpr h) (by decide)

/-- Two names, two headers: what was generated passes the check. -/
theorem generate_then_check_twoFiles :
    ∃ s checked, run posix { output := some "build/generated" }
        [chatInput "Chat.cs", gameInput "Game.cs"]
        (twoFiles (chatInput "Chat.cs") (gameInput "Game.cs")) = some (0, s) ∧
      run posix { output := some "build/generated", check := true }
        [chatInput "Chat.cs", gameInput "Game.cs"] s.fs = some (0, checked) := by
  have hkept : InputsKept posix (resolveInputs posix [chatInput "Chat.cs", gameInput "Game.cs"])
      (outputs posix { output := some "build/generated" }
        [chatInput "Chat.cs", gameInput "Game.cs"] [chatUnit, gameUnit] gameUnit) := by
    unfold InputsKept
    decide
  have hthen := generate_then_check posix { output := some "build/generated" } rfl
    [chatInput "Chat.cs", gameInput "Game.cs"]
    (twoFiles (chatInput "Chat.cs") (gameInput "Game.cs")) _ rfl hkept
  obtain ⟨-, ⟨code, checked, hrun, -, -, hcode⟩, halike⟩ := hthen
  have happart : OutputsApart posix { output := some "build/generated" }
      (resolveInputs posix [chatInput "Chat.cs", gameInput "Game.cs"]) := by
    refine ⟨by decide, ?_⟩
    intro csPath h
    cases h
  rw [hcode.mpr (halike happart)] at hrun
  exact ⟨_, checked, rfl, hrun⟩

end GeneratorRunner

end MemoryPack.Cs2Cpp
