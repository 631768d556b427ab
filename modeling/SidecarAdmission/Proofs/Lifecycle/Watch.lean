import SidecarAdmission.Lifecycle.Watch
import SidecarAdmission.Proofs.Storage.Path

/-!
The directories that are watched for files: the directory of each, in the order of paths, each once
however it is spelled.
-/

set_option autoImplicit false
set_option relaxedAutoImplicit false

namespace SidecarAdmission.Lifecycle

open SidecarAdmission.Storage

theorem watchedDirectories?_eq_some_iff {files : FileStore} {paths directories : List String} :
    watchedDirectories? files paths = some directories ↔
      Path.directories paths = directories ∧ ∀ d ∈ directories, files.exists? d = true := by
  have hunfold : watchedDirectories? files paths =
      if (Path.directories paths).all files.exists? then some (Path.directories paths)
      else none := rfl
  rw [hunfold, Option.ite_none_right_eq_some, List.all_eq_true, Option.some_inj]
  constructor
  · rintro ⟨hthere, rfl⟩
    exact ⟨rfl, hthere⟩
  · rintro ⟨rfl, hthere⟩
    exact ⟨hthere, rfl⟩

/-- The directories of files are watched if they are there. They stand in order and no two of them
are the same path; the directory of each file is among them, and each is spelled as that of one of
the files; the directory of a file has all of its components but the last, or is the current one;
and the same files in another order, or some of them twice, have the same directories, up to their
spelling. -/
theorem watchedDirectories_distinct {store : FileStore} {files : List String}
    (h : ∀ file ∈ files, store.exists? (Path.directory file) = true) :
    ∃ directories, watchedDirectories? store files = some directories ∧
      Path.Ascends directories ∧
      directories.Pairwise (fun a b => Path.components a ≠ Path.components b) ∧
      (∀ file ∈ files, ∃ d ∈ directories,
        Path.components d = Path.components (Path.directory file)) ∧
      (∀ d ∈ directories, ∃ file ∈ files, d = Path.directory file) ∧
      (∀ file, Path.components (Path.directory file) =
        if (Path.components file).dropLast = [] then [.current]
        else (Path.components file).dropLast) ∧
      ∀ others : List String, (∀ file, file ∈ others ↔ file ∈ files) →
        ∃ same, watchedDirectories? store others = some same ∧
          same.map Path.components = directories.map Path.components := by
  have hwatched : ∀ others : List String, (∀ file ∈ others, file ∈ files) →
      watchedDirectories? store others = some (Path.directories others) := by
    intro others hothers
    refine watchedDirectories?_eq_some_iff.mpr ⟨rfl, fun d hd => ?_⟩
    obtain ⟨file, hfile, rfl⟩ := Path.exists_eq_directory hd
    exact h file (hothers file hfile)
  have hascends := Path.ascends_directories files
  refine ⟨Path.directories files, hwatched files fun _ hfile => hfile, hascends,
    hascends.pairwise_ne, fun file hfile => Path.exists_mem_directories hfile,
    fun d hd => Path.exists_eq_directory hd, Path.components_directory, fun others hsame => ?_⟩
  exact ⟨Path.directories others, hwatched others fun file hfile => (hsame file).mp hfile,
    Path.map_components_directories hsame⟩

/-- Two directories inside each other. -/
def nested : FileStore :=
  ⟨["home"], [(["home", "a"], .directory), (["home", "a", "b"], .directory)]⟩

/-- Files in five directories, one of which is spelled in three ways. -/
def scattered : List String :=
  ["a/b//cert", "key", "./a/config", "/health", "a/./b/key/", "a/config", "a//b/..", "a/b/."]

theorem watchedDirectories_distinct_scattered :
    (∀ file ∈ scattered, nested.exists? (Path.directory file) = true) ∧
      watchedDirectories? nested scattered = some ["/", ".", "./a", "a", "a//b"] ∧
      Path.Ascends ["/", ".", "./a", "a", "a//b"] ∧
      (∀ file, file ∈ scattered.reverse ↔ file ∈ scattered) ∧
      ∃ same, watchedDirectories? nested scattered.reverse = some same ∧
        same.map Path.components = ["/", ".", "./a", "a", "a//b"].map Path.components := by
  have hthere : ∀ file ∈ scattered, nested.exists? (Path.directory file) = true := by
    decide +kernel
  have hwatched : watchedDirectories? nested scattered = some ["/", ".", "./a", "a", "a//b"] := by
    decide +kernel
  obtain ⟨directories, hfound, hascends, -, -, -, -, hsame⟩ := watchedDirectories_distinct hthere
  obtain rfl := Option.some.inj (hwatched.symm.trans hfound)
  have hreverse : ∀ file, file ∈ scattered.reverse ↔ file ∈ scattered :=
    fun file => List.mem_reverse
  exact ⟨hthere, hwatched, hascends, hreverse, hsame _ hreverse⟩

end SidecarAdmission.Lifecycle
