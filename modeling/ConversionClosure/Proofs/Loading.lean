/-
Loading files.

A file is loaded with one tick before it is read and, if it is a document, one tick for each of its
entries.  What loading comes to depends on the files and the languages, never on the budget, and
whatever units it gives were read.
-/
import ConversionClosure.Proofs.Units

namespace ConversionClosure

open Metered

namespace Format

variable {path : Path} {text : String}

theorem parseEntries_steady (index : Nat) (entries : List Entry) :
    (parseEntries index entries).IsSteady := by
  obtain ⟨notes, hdoes, -⟩ := does_parseEntries index entries
  exact ⟨_, _, hdoes⟩

theorem parse_steady (format : Format) (path : Path) (text : String) :
    (format.parse path text).IsSteady := by
  cases format with
  | source => exact .ofExcept _
  | document =>
      show (parseDocument path text).IsSteady
      unfold parseDocument
      split
      · exact .throw _
      · exact (parseEntries_steady 0 _).bind fun _ => .pure _

end Format

namespace SourceUnit

variable {ls : Languages} {fs : FileSystem} {name : Option String} {path : Path}
  {paths : List Path} {scope : Scope} {b b' : Budget}

/-! ### Loading does not look at the budget -/

theorem loadAs_steady (format : Format) (fs : FileSystem) (path : Path) :
    (loadAs format fs path).IsSteady := by
  unfold loadAs
  refine (IsSteady.tick _).bind fun _ => ?_
  split
  · exact .throw _
  split
  · exact .throw _
  · exact format.parse_steady path _

theorem load_steady (ls : Languages) (fs : FileSystem) (name : Option String) (path : Path) :
    (load ls fs name path).IsSteady := by
  unfold load
  split
  · refine (IsSteady.ofExcept _).bind fun l => ?_
    split
    · exact loadAs_steady _ fs path
    · exact .throw _
  · exact .throw _

theorem loadAll_steady (ls : Languages) (fs : FileSystem) (name : Option String)
    (paths : List Path) : (loadAll ls fs name paths).IsSteady :=
  .mapM (load_steady ls fs name) paths

/-! ### What is loaded was read -/

theorem isRead_of_parse {l : Language} {text : String} {unit : SourceUnit}
    (h : (SourceUnit.parse l path text).runWith scope b = (.ok unit, b')) : unit.IsRead := by
  unfold SourceUnit.parse at h
  split at h
  · rename_i format _
    exact ⟨format, path, text, scope, b, b', h⟩
  · cases h

theorem isRead_of_loadAs {format : Format} {unit : SourceUnit}
    (h : (loadAs format fs path).runWith scope b = (.ok unit, b')) : unit.IsRead := by
  unfold loadAs at h
  obtain ⟨_, b₁, -, h⟩ := exists_of_runWith_bind h
  split at h
  · cases h
  split at h
  · cases h
  · rename_i text _
    exact ⟨format, path, text, scope, b₁, b', h⟩

theorem isRead_of_load {unit : SourceUnit}
    (h : (load ls fs name path).runWith scope b = (.ok unit, b')) : unit.IsRead := by
  unfold load at h
  split at h
  · obtain ⟨l, b₁, -, h⟩ := exists_of_runWith_bind h
    split at h
    · exact isRead_of_loadAs h
    · cases h
  · cases h

theorem isRead_of_loadAll {units : List SourceUnit}
    (h : (loadAll ls fs name paths).runWith scope b = (.ok units, b')) :
    ∀ unit ∈ units, unit.IsRead := by
  unfold loadAll at h
  induction paths generalizing units b with
  | nil =>
      cases h
      simp
  | cons path paths ih =>
      rw [List.mapM_cons] at h
      obtain ⟨unit, b₁, hunit, h⟩ := exists_of_runWith_bind h
      obtain ⟨rest, b₂, hrest, h⟩ := exists_of_runWith_bind h
      cases h
      exact List.forall_mem_cons.mpr ⟨isRead_of_load hunit, ih hrest⟩

end SourceUnit

end ConversionClosure
