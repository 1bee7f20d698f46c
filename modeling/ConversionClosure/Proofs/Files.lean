/-
What writing a file leaves as it is.

A text is written to one place, where no directory stands before or after.  No way of a path goes
through that place, so every path leads where it led, and what stands there is the same unless it is
the place itself.  Only the reason why a path leads nowhere may be another one.
-/
import ConversionClosure.File.System

namespace ConversionClosure.FileSystem

variable {fs fs' fs'' : FileSystem} {p q : Path} {place w : Place} {text : String}

/-- The two have the same nodes except at one place, where neither has a directory. -/
structure DiffersAt (fs fs' : FileSystem) (w : Place) : Prop where
  working : fs'.working = fs.working
  node : ∀ place, place ≠ w → fs'.node? place = fs.node? place
  before : fs.node? w ≠ some .directory
  after : fs'.node? w ≠ some .directory

/-- At the path stands the same in both, or nothing in either. -/
def SameAt (fs fs' : FileSystem) (p : Path) : Prop := (fs'.at? p).toOption = (fs.at? p).toOption

/-- The two paths do not lead to one place. -/
def Apart (fs : FileSystem) (p q : Path) : Prop :=
  ∀ place, fs.locate p = .ok place → fs.locate q ≠ .ok place

instance (fs : FileSystem) (p q : Path) : Decidable (fs.Apart p q) :=
  decidable_of_iff (∀ place ∈ (fs.locate p).toOption, (fs.locate q).toOption ≠ some place) (by
    unfold Apart
    cases fs.locate p <;> cases fs.locate q <;> simp [Except.toOption])

theorem SameAt.trans (h : fs.SameAt fs' p) (h' : fs'.SameAt fs'' p) : fs.SameAt fs'' p :=
  Eq.trans h' h

namespace DiffersAt

theorem symm (h : DiffersAt fs fs' w) : DiffersAt fs' fs w :=
  ⟨h.working.symm, fun place hplace => (h.node place hplace).symm, h.after, h.before⟩

/-- The same directories are there. -/
theorem directory_iff (h : DiffersAt fs fs' w) :
    fs'.node? place = some .directory ↔ fs.node? place = some .directory := by
  by_cases hplace : place = w
  · subst hplace
    exact iff_of_false h.after h.before
  · rw [h.node place hplace]

theorem follow_of_ok (h : DiffersAt fs fs' w) {parts : List String} {start : Place}
    (hfollow : fs.follow start parts = .ok place) : fs'.follow start parts = .ok place := by
  induction parts generalizing start with
  | nil => exact hfollow
  | cons part parts ih =>
      rw [follow] at hfollow ⊢
      split at hfollow
      · cases hfollow
      · cases hfollow
      · rename_i hdirectory
        rw [h.directory_iff.mpr hdirectory]
        exact ih hfollow

/-- A path leads to the same place, if it leads to any. -/
theorem locate_eq_ok_iff (h : DiffersAt fs fs' w) :
    fs'.locate p = .ok place ↔ fs.locate p = .ok place := by
  unfold locate
  rw [h.working]
  exact ⟨h.symm.follow_of_ok, h.follow_of_ok⟩

end DiffersAt

theorem toOption_at? (fs : FileSystem) (p : Path) :
    (fs.at? p).toOption = (fs.locate p).toOption.bind fs.node? := by
  unfold at?
  cases fs.locate p with
  | error cause => rfl
  | ok place =>
      dsimp only [bind, Except.bind, Except.toOption, Option.bind]
      cases fs.node? place <;> rfl

/-- Away from the place at which they differ, the two show the same. -/
theorem DiffersAt.sameAt (h : DiffersAt fs fs' w) (hp : fs.locate p ≠ .ok w) :
    fs.SameAt fs' p := by
  unfold SameAt
  rw [toOption_at?, toOption_at?]
  cases hlocate : fs.locate p with
  | ok place =>
      rw [h.locate_eq_ok_iff.mpr hlocate]
      refine h.node place ?_
      rintro rfl
      exact hp hlocate
  | error cause =>
      cases hlocate' : fs'.locate p with
      | error cause' => rfl
      | ok place =>
          rw [h.locate_eq_ok_iff.mp hlocate'] at hlocate
          cases hlocate

/-! ### Questions about a path -/

theorem toOption_read (fs : FileSystem) (p : Path) :
    (fs.read p).toOption = (fs.at? p).toOption.bind fun
      | .file bytes => some bytes
      | .directory => none := by
  unfold read
  cases fs.at? p with
  | error cause => rfl
  | ok node => cases node <;> rfl

theorem SameAt.read_eq_ok_iff (h : fs.SameAt fs' p) {bytes : List UInt8} :
    fs'.read p = .ok bytes ↔ fs.read p = .ok bytes := by
  have hoption : (fs'.read p).toOption = (fs.read p).toOption := by
    rw [toOption_read, toOption_read, h]
  cases hread' : fs'.read p <;> cases hread : fs.read p <;>
    simp [hread, hread', Except.toOption] at hoption ⊢
  rw [hoption]

theorem SameAt.pathExists_eq (h : fs.SameAt fs' p) : fs'.pathExists p = fs.pathExists p := by
  unfold SameAt at h
  unfold pathExists
  cases hat' : fs'.at? p <;> cases hat : fs.at? p <;> simp [hat, hat', Except.toOption] at h ⊢
  · rfl
  · rfl

theorem SameAt.isFile_eq (h : fs.SameAt fs' p) : fs'.isFile p = fs.isFile p := by
  unfold SameAt at h
  unfold isFile
  cases hat' : fs'.at? p <;> cases hat : fs.at? p <;> simp [hat, hat', Except.toOption] at h ⊢
  rw [h]

/-! ### Writing -/

/-- A text is written to a place where no directory stands and whose directory is there. -/
theorem write_eq_ok_iff : fs.write p text = .ok fs' ↔
    ∃ w, fs.locate p = .ok w ∧ fs.node? w ≠ some .directory ∧
      fs.node? w.dropLast = some .directory ∧ fs' = fs.put w (.file (Utf8.encode text)) := by
  unfold write
  cases hlocate : fs.locate p with
  | error cause =>
      refine iff_of_false nofun fun h => ?_
      obtain ⟨w, hw, -⟩ := h
      cases hw
  | ok w =>
      dsimp only [bind, Except.bind]
      split
      · rename_i hnode
        refine iff_of_false nofun fun h => ?_
        obtain ⟨_, hw, hbefore, -⟩ := h
        obtain rfl := Except.ok.inj hw
        exact hbefore hnode
      · rename_i hdirectory hbefore
        refine ⟨fun h => ⟨w, rfl, hbefore, hdirectory, (Except.ok.inj h).symm⟩, ?_⟩
        rintro ⟨_, hw, -, -, rfl⟩
        obtain rfl := Except.ok.inj hw
        rfl
      all_goals
        rename_i hdirectory _
        refine iff_of_false nofun fun h => ?_
        obtain ⟨_, hw, -, hdirectory', -⟩ := h
        obtain rfl := Except.ok.inj hw
        rw [hdirectory] at hdirectory'
        cases hdirectory'

section Write

variable (h : fs.write p text = .ok fs')
include h

/-- Only what the path leads to is another file after a text was written. -/
theorem exists_differsAt_of_write :
    ∃ w, fs.locate p = .ok w ∧ DiffersAt fs fs' w ∧
      fs'.node? w = some (.file (Utf8.encode text)) := by
  obtain ⟨w, hw, hbefore, -, rfl⟩ := write_eq_ok_iff.mp h
  have hne : w ≠ [] := by
    rintro rfl
    exact hbefore rfl
  have hafter := node?_put_self hne fs (.file (Utf8.encode text))
  refine ⟨w, hw, ⟨rfl, fun place hplace => node?_put_of_ne hplace fs _, hbefore, ?_⟩, hafter⟩
  rw [hafter]
  simp

/-- A path to another place shows what it showed. -/
theorem sameAt_of_write (hq : fs.Apart p q) : fs.SameAt fs' q := by
  obtain ⟨w, hw, hdiffers, -⟩ := exists_differsAt_of_write h
  exact hdiffers.sameAt (hq w hw)

/-- What was written is read. -/
theorem read_of_write : fs'.read p = .ok (Utf8.encode text) := by
  obtain ⟨w, hw, hdiffers, hafter⟩ := exists_differsAt_of_write h
  have hread : (fs'.read p).toOption = some (Utf8.encode text) := by
    rw [toOption_read, toOption_at?, hdiffers.locate_eq_ok_iff.mpr hw]
    show (fs'.node? w).bind _ = _
    rw [hafter]
    rfl
  cases hcase : fs'.read p with
  | error cause => simp [hcase, Except.toOption] at hread
  | ok bytes =>
      rw [hcase] at hread
      exact congrArg Except.ok (Option.some.inj hread)

/-- Two paths to different places lead to different places still. -/
theorem apart_of_write {q' : Path} (hq : fs.Apart q q') : fs'.Apart q q' := by
  obtain ⟨w, -, hdiffers, -⟩ := exists_differsAt_of_write h
  intro place hplace hplace'
  exact hq place (hdiffers.locate_eq_ok_iff.mp hplace) (hdiffers.locate_eq_ok_iff.mp hplace')

/-- What could be written to can be written to. -/
theorem exists_write_of_write {first : String} (hq : ∃ fs'', fs.write q first = .ok fs'')
    (text' : String) : ∃ fs'', fs'.write q text' = .ok fs'' := by
  obtain ⟨w, -, hdiffers, -⟩ := exists_differsAt_of_write h
  obtain ⟨_, hq⟩ := hq
  obtain ⟨place, hplace, hbefore, hdirectory, -⟩ := write_eq_ok_iff.mp hq
  exact ⟨_, write_eq_ok_iff.mpr ⟨place, hdiffers.locate_eq_ok_iff.mpr hplace,
    fun hafter => hbefore (hdiffers.directory_iff.mp hafter),
    hdiffers.directory_iff.mpr hdirectory, rfl⟩⟩

end Write

/-- Whether a text can be written does not depend on the text. -/
theorem exists_write {first : String} (h : ∃ fs', fs.write p first = .ok fs') (text : String) :
    ∃ fs', fs.write p text = .ok fs' := by
  obtain ⟨_, h⟩ := h
  obtain ⟨place, hplace, hbefore, hdirectory, -⟩ := write_eq_ok_iff.mp h
  exact ⟨_, write_eq_ok_iff.mpr ⟨place, hplace, hbefore, hdirectory, rfl⟩⟩

end ConversionClosure.FileSystem
