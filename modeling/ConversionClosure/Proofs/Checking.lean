/-
What a check says about a run that writes.

A run that writes puts its report and its output where neither the configuration nor an input stands.
So a run after it finds the same settings and the same units and comes to the same report, and the
output shows the text of that report: the text has no carriage return, and so it is read as it was
written.

A pass that is refused ends the command before anything is written.
-/
import ConversionClosure.CommandLine
import ConversionClosure.Proofs.Files
import ConversionClosure.Proofs.Returns

namespace ConversionClosure

open FileSystem

variable {fs fs' : FileSystem}

/-! ### What a run reads -/

/-- The same settings are in a configuration that shows the same. -/
theorem Configuration.resolve_eq {p : Path} {overrides : Overrides} (h : fs.SameAt fs' p) :
    resolve fs' p overrides = resolve fs p overrides := by
  have hdocument : document fs' p = document fs p := by
    unfold document
    cases hread : fs.read p with
    | ok bytes => rw [h.read_eq_ok_iff.mpr hread]
    | error cause =>
        cases hread' : fs'.read p with
        | ok bytes => cases hread.symm.trans (h.read_eq_ok_iff.mp hread')
        | error cause' => rfl
  unfold resolve entries
  rw [hdocument]

namespace SourceUnit

variable {ls : Languages} {name : Option String} {format : Format} {p : Path} {paths : List Path}

theorem loadAs_eq (h : fs.SameAt fs' p) : loadAs format fs' p = loadAs format fs p := by
  unfold loadAs
  cases hread : fs.read p with
  | ok bytes => rw [h.read_eq_ok_iff.mpr hread]
  | error cause =>
      cases hread' : fs'.read p with
      | ok bytes => cases hread.symm.trans (h.read_eq_ok_iff.mp hread')
      | error cause' => rfl

theorem load_eq (h : fs.SameAt fs' p) : load ls fs' name p = load ls fs name p := by
  unfold load
  rw [h.isFile_eq]
  simp only [loadAs_eq h]

/-- The same units are in files that show the same. -/
theorem loadAll_eq (h : ∀ p ∈ paths, fs.SameAt fs' p) :
    loadAll ls fs' name paths = loadAll ls fs name paths := by
  unfold loadAll
  induction paths with
  | nil => rfl
  | cons p paths ih =>
      obtain ⟨hp, hrest⟩ := List.forall_mem_cons.mp h
      rw [List.mapM_cons, List.mapM_cons, load_eq hp, ih hrest]

end SourceUnit

theorem Pass.runPaths_eq {settings : Settings} {ls : Languages} {name : Option String}
    {paths : List Path} (h : ∀ p ∈ paths, fs.SameAt fs' p) :
    runPaths settings ls fs' name paths = runPaths settings ls fs name paths := by
  unfold runPaths loadMetered
  rw [SourceUnit.loadAll_eq h]

namespace Command

variable {o : Options} {out p : Path} {shown : Option String} {r : Report} {b : Bool}

/-- The configuration file of a run. -/
def configuration (o : Options) : Path := Configuration.path o.root o.config

/-- A run reads the file at the path. -/
def Reads (o : Options) (p : Path) : Prop := p = configuration o ∨ p ∈ o.paths

theorem report_eq_ok_iff : report fs o = .ok r ↔ ∃ settings,
    Configuration.resolve fs (configuration o) o.overrides = .ok settings ∧
      Pass.runPaths settings .builtIn fs o.language o.paths = .ok r := by
  unfold report configuration
  cases Configuration.resolve fs (Configuration.path o.root o.config) o.overrides with
  | error fault => simp
  | ok settings =>
      cases hrun : Pass.runPaths settings .builtIn fs o.language o.paths <;>
        simp [hrun, Except.mapError]

/-- A run that reads the same comes to the same report. -/
theorem report_of_sameAt (h : ∀ p, Reads o p → fs.SameAt fs' p) (hr : report fs o = .ok r) :
    report fs' o = .ok r := by
  obtain ⟨settings, hsettings, hrun⟩ := report_eq_ok_iff.mp hr
  refine report_eq_ok_iff.mpr ⟨settings, ?_, ?_⟩
  · rw [Configuration.resolve_eq (h _ (.inl rfl)), hsettings]
  · rw [Pass.runPaths_eq fun p hp => h p (.inr hp), hrun]

/-! ### What a run writes -/

/-- At the path stands nothing, or a file that is read as a text. -/
inductive Shows (fs : FileSystem) (p : Path) : Option String → Prop
  | nothing (h : fs.pathExists p = false) : Shows fs p none
  | text {bytes : List UInt8} {text : String} (hread : fs.read p = .ok bytes)
      (htext : Utf8.readText bytes = .ok text) : Shows fs p (some text)

theorem pathExists_of_read {bytes : List UInt8} (h : fs.read p = .ok bytes) :
    fs.pathExists p = true := by
  unfold FileSystem.read at h
  unfold pathExists
  cases hat : fs.at? p with
  | ok node => rfl
  | error cause =>
      rw [hat] at h
      cases h

theorem Shows.current_eq (h : Shows fs p shown) : current fs p = .ok shown := by
  unfold current
  cases h with
  | nothing h => rw [h]; rfl
  | text hread htext =>
      rw [pathExists_of_read hread, hread]
      simp [htext, Except.map, Except.mapError]

theorem Shows.of_sameAt (hsame : fs.SameAt fs' p) (h : Shows fs p shown) : Shows fs' p shown := by
  cases h with
  | nothing h => exact .nothing (hsame.pathExists_eq.trans h)
  | text hread htext => exact .text (hsame.read_eq_ok_iff.mpr hread) htext

/-- A text without carriage returns is shown once it is written. -/
theorem shows_of_write {text : String} (htext : NoReturn text) (h : fs.write p text = .ok fs') :
    Shows fs' p (some text) :=
  .text (read_of_write h) (Utf8.readText_encode htext)

/-- The output and the report of a run are files of their own, and the report can be written. -/
structure Separate (fs : FileSystem) (o : Options) (out : Path) : Prop where
  output : ∀ p, Reads o p → fs.Apart out p
  report : ∀ p ∈ o.report, fs.Apart p out ∧ (∀ q, Reads o q → fs.Apart p q) ∧
    ∃ fs', fs.write p "" = .ok fs'

theorem save_eq_ok_iff {text : String} : save fs p text = .ok fs' ↔ fs.write p text = .ok fs' := by
  unfold save
  cases fs.write p text <;> simp [Except.mapError]

/-- The report is saved, and nothing else is another file then. -/
theorem Separate.exists_saveReport (h : Separate fs o out) (r : Report) :
    ∃ fs', saveReport fs o.report r = .ok fs' ∧ Separate fs' o out ∧ fs.SameAt fs' out ∧
      ∀ p, Reads o p → fs.SameAt fs' p := by
  cases hreport : o.report with
  | none => exact ⟨fs, rfl, h, rfl, fun _ _ => rfl⟩
  | some p =>
      obtain ⟨hout, hreads, hwritable⟩ := h.report p hreport
      obtain ⟨fs', hwrite⟩ := exists_write hwritable (Json.writeReport 0 r.toValue ++ "\n")
      refine ⟨fs', save_eq_ok_iff.mpr hwrite, ⟨fun q hq => ?_, fun p' hp' => ?_⟩,
        sameAt_of_write hwrite hout, fun q hq => sameAt_of_write hwrite (hreads q hq)⟩
      · exact apart_of_write hwrite (h.output q hq)
      · obtain ⟨hout', hreads', hwritable'⟩ := h.report p' hp'
        exact ⟨apart_of_write hwrite hout', fun q hq => apart_of_write hwrite (hreads' q hq),
          exists_write_of_write hwrite hwritable' ""⟩

/-- The output is written, and nothing that a run reads is another file then. -/
theorem Separate.of_write {text : String} (h : Separate fs o out)
    (hwrite : fs.write out text = .ok fs') :
    Separate fs' o out ∧ ∀ p, Reads o p → fs.SameAt fs' p := by
  refine ⟨⟨fun q hq => apart_of_write hwrite (h.output q hq), fun p hp => ?_⟩,
    fun q hq => sameAt_of_write hwrite (h.output q hq)⟩
  obtain ⟨hout, hreads, hwritable⟩ := h.report p hp
  exact ⟨apart_of_write hwrite hout, fun q hq => apart_of_write hwrite (hreads q hq),
    exists_write_of_write hwrite hwritable ""⟩

/-! ### Runs -/

theorem refusal_files (fs : FileSystem) (fault : Fault) : (refusal fs fault).files = fs := by
  unfold refusal
  split <;> rfl

theorem refusal_ending_ne (fs : FileSystem) (fault : Fault) :
    (refusal fs fault).ending ≠ .exit success := by
  unfold refusal
  split <;> simp [badInput, success]

/-- Without a report nothing is written, and the run is no success. -/
theorem of_report_eq_error {outcome : Outcome} (h : report fs o = .error outcome) :
    outcome.files = fs ∧ outcome.ending ≠ .exit success := by
  unfold report at h
  split at h
  · cases h
    exact ⟨rfl, nofun⟩
  · rename_i settings _
    cases hrun : Pass.runPaths settings .builtIn fs o.language o.paths with
    | ok r => simp [hrun, Except.mapError] at h
    | error fault =>
        rw [hrun] at h
        cases h
        exact ⟨refusal_files fs fault, refusal_ending_ne fs fault⟩

theorem report_check (fs : FileSystem) (o : Options) (b : Bool) :
    report fs { o with check := b } = report fs o := rfl

theorem runSynth_of_error {outcome : Outcome} (h : report fs o = .error outcome) :
    runSynth fs { o with check := b } = outcome := by
  simp [runSynth, report_check, h]

/-- A run that comes to a report ends as its delivery does. -/
theorem runSynth_of_ok (hr : report fs o = .ok r) (hsave : saveReport fs o.report r = .ok fs') :
    (runSynth fs { o with check := b }).ending = (delivered fs' { o with check := b } r).ending ∧
      (runSynth fs { o with check := b }).files = (delivered fs' { o with check := b } r).files := by
  simp [runSynth, report_check, hr, hsave]

/-- A pass that is refused ends the command with nothing written. -/
theorem runSynth_of_refusal {settings : Settings} {fault : Fault}
    (hsettings : Configuration.resolve fs (configuration o) o.overrides = .ok settings)
    (hrun : Pass.runPaths settings .builtIn fs o.language o.paths = .error fault) :
    runSynth fs { o with check := b } = refusal fs fault := by
  refine runSynth_of_error ?_
  unfold configuration at hsettings
  simp [report, hsettings, hrun, Except.mapError]

theorem refusal_of_unit_or_timeout {fault : Fault}
    (h : (∃ path cause, fault = .unit path cause) ∨ ∃ t, fault = .timeout t) :
    (refusal fs fault).ending = .exit badInput := by
  rcases h with ⟨path, cause, rfl⟩ | ⟨t, rfl⟩ <;> rfl

/-- A check leaves the files as they are, and its code says whether the output is out of date. -/
theorem delivered_check (hout : o.output = some out) (hshown : Shows fs out shown) :
    (delivered fs { o with check := true } r).ending =
        .exit (if shown = some r.output then success else stale) ∧
      (delivered fs { o with check := true } r).files = fs := by
  simp only [delivered, hout, checked, hshown.current_eq, if_true]
  by_cases h : shown = some r.output
  · simp only [if_pos h, and_self]
  · simp only [if_neg h, and_self]

/-- A success that is no check has written the output. -/
theorem write_of_delivered (hout : o.output = some out)
    (h : (delivered fs { o with check := false } r).ending = .exit success) :
    fs.write out r.output = .ok (delivered fs { o with check := false } r).files := by
  simp only [delivered, hout, written] at h ⊢
  cases hsave : save fs out r.output with
  | error fault => simp [hsave] at h
  | ok fs' => exact save_eq_ok_iff.mp hsave

/-- The text of the report has no carriage return. -/
theorem noReturn_of_report
    (hsource : ∀ p ∈ o.paths,
      Languages.builtIn.resolve p o.language Languages.defaultName = .ok .source)
    (hstyle : ∀ settings, Configuration.resolve fs (configuration o) o.overrides = .ok settings →
      NoReturn settings.traitPath ∧ ∀ line ∈ settings.prelude, NoReturn line)
    (hr : report fs o = .ok r) : NoReturn r.output := by
  obtain ⟨settings, hsettings, hrun⟩ := report_eq_ok_iff.mp hr
  obtain ⟨htrait, hprelude⟩ := hstyle settings hsettings
  exact Pass.noReturn_of_runPaths htrait hprelude hsource hrun

/-- A check of a pass that succeeds says whether the output is out of date, and leaves it. -/
theorem runSynth_check_of_ok (hout : o.output = some out) (hseparate : Separate fs o out)
    (hshown : Shows fs out shown) (hr : report fs o = .ok r) :
    (runSynth fs { o with check := true }).ending =
        .exit (if shown = some r.output then success else stale) ∧
      fs.SameAt (runSynth fs { o with check := true }).files out := by
  obtain ⟨fs', hsave, -, hsame, -⟩ := hseparate.exists_saveReport r
  obtain ⟨hending, hfiles⟩ := runSynth_of_ok (b := true) hr hsave
  obtain ⟨hending', hfiles'⟩ := delivered_check (r := r) hout (hshown.of_sameAt hsame)
  exact ⟨hending.trans hending', hfiles.trans hfiles' ▸ hsame⟩

/-- The check that follows a run which wrote its output finds it up to date. -/
theorem runSynth_check_of_written (hout : o.output = some out) (hseparate : Separate fs o out)
    (hr : report fs o = .ok r) (htext : NoReturn r.output)
    (h : (runSynth fs { o with check := false }).ending = .exit success) :
    (runSynth (runSynth fs { o with check := false }).files { o with check := true }).ending =
      .exit success := by
  obtain ⟨fs₁, hsave, hseparate₁, -, hsame₁⟩ := hseparate.exists_saveReport r
  obtain ⟨hending, hfiles⟩ := runSynth_of_ok (b := false) hr hsave
  have hwrite := write_of_delivered hout (hending.symm.trans h)
  rw [← hfiles] at hwrite
  obtain ⟨hseparate₂, hsame₂⟩ := hseparate₁.of_write hwrite
  have hr₂ := report_of_sameAt (fun p hp => (hsame₁ p hp).trans (hsame₂ p hp)) hr
  have hcheck := (runSynth_check_of_ok hout hseparate₂ (shows_of_write htext hwrite) hr₂).1
  rwa [if_pos rfl] at hcheck

/-- **A check agrees with the run that writes, and a refused pass writes nothing.** -/
theorem runSynth_checked (hout : o.output = some out) (hshown : Shows fs out shown)
    (hseparate : Separate fs o out)
    (hsource : ∀ p ∈ o.paths,
      Languages.builtIn.resolve p o.language Languages.defaultName = .ok .source)
    (hstyle : ∀ settings, Configuration.resolve fs (configuration o) o.overrides = .ok settings →
      NoReturn settings.traitPath ∧ ∀ line ∈ settings.prelude, NoReturn line) :
    ((runSynth fs { o with check := false }).ending = .exit success →
      (runSynth (runSynth fs { o with check := false }).files { o with check := true }).ending =
        .exit success) ∧
    fs.SameAt (runSynth fs { o with check := true }).files out ∧
    (∀ r, report fs o = .ok r → (runSynth fs { o with check := true }).ending =
      .exit (if shown = some r.output then success else stale)) ∧
    ∀ settings fault, Configuration.resolve fs (configuration o) o.overrides = .ok settings →
      Pass.runPaths settings .builtIn fs o.language o.paths = .error fault →
      ((∃ path cause, fault = .unit path cause) ∨ ∃ t, fault = .timeout t) →
      ∀ b, (runSynth fs { o with check := b }).ending = .exit badInput ∧
        (runSynth fs { o with check := b }).files = fs := by
  refine ⟨fun h => ?_, ?_, fun r hr => (runSynth_check_of_ok hout hseparate hshown hr).1,
    fun settings fault hsettings hrun hrefused b => ?_⟩
  · cases hr : report fs o with
    | ok r =>
        exact runSynth_check_of_written hout hseparate hr (noReturn_of_report hsource hstyle hr) h
    | error outcome =>
        rw [runSynth_of_error hr] at h
        exact absurd h (of_report_eq_error hr).2
  · cases hr : report fs o with
    | ok r => exact (runSynth_check_of_ok hout hseparate hshown hr).2
    | error outcome =>
        rw [runSynth_of_error hr, (of_report_eq_error hr).1]
        rfl
  · rw [runSynth_of_refusal hsettings hrun]
    exact ⟨refusal_of_unit_or_timeout hrefused, refusal_files fs fault⟩

/-! One source file, whose lines end in a carriage return and a line feed, as the header's do.  There is
no output yet, and a report is asked for. -/

def oneSource : FileSystem where
  nodes := [(["a.rs"], .file (Utf8.encode "struct A;\r\n"))]

def withReport : Options where
  paths := [.ofText "a.rs"]
  output := some (.ofText "out.rs")
  report := some (.ofText "report.json")
  overrides := { header := some "made\r\nhere" }

theorem separate_oneSource : Separate oneSource withReport (.ofText "out.rs") := by
  have hapart : ∀ p ∈ [.ofText "out.rs", .ofText "report.json"],
      ∀ q ∈ [configuration withReport, .ofText "a.rs"], oneSource.Apart p q := by decide +kernel
  have hreads : ∀ q, Reads withReport q → q ∈ [configuration withReport, .ofText "a.rs"] := by
    simp [Reads, withReport]
  refine ⟨fun q hq => hapart _ (by simp) q (hreads q hq), ?_⟩
  rintro _ ⟨⟩
  exact ⟨by decide +kernel, fun q hq => hapart _ (by simp) q (hreads q hq),
    _, write_eq_ok_iff.mpr ⟨["report.json"], by decide, by decide, by decide, rfl⟩⟩

theorem resolve_oneSource : Configuration.resolve oneSource (configuration withReport)
    withReport.overrides = .ok { header := "made\r\nhere" } := by decide +kernel

theorem runSynth_checked_oneSource :
    (runSynth oneSource withReport).ending = .exit success ∧
    (runSynth (runSynth oneSource withReport).files { withReport with check := true }).ending =
      .exit success ∧
    (runSynth oneSource { withReport with check := true }).ending = .exit stale := by
  have hwrite : (runSynth oneSource withReport).ending = .exit success := by decide +kernel
  have hstyle : ∀ settings, Configuration.resolve oneSource (configuration withReport)
      withReport.overrides = .ok settings →
      NoReturn settings.traitPath ∧ ∀ line ∈ settings.prelude, NoReturn line := by
    intro settings hsettings
    obtain rfl := Except.ok.inj (resolve_oneSource.symm.trans hsettings)
    decide
  obtain ⟨hagrees, -, hstale, -⟩ := runSynth_checked rfl (.nothing (by decide)) separate_oneSource
    (by decide +kernel) hstyle
  refine ⟨hwrite, hagrees hwrite, ?_⟩
  cases hr : report oneSource withReport with
  | ok r => exact hstale r hr
  | error outcome =>
      have hnone : runSynth oneSource withReport = outcome := runSynth_of_error hr
      exact absurd (hnone ▸ hwrite) (of_report_eq_error hr).2

end Command

end ConversionClosure
