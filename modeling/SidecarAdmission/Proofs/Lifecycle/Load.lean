import Mathlib.Logic.Function.Iterate
import Mathlib.Logic.Relation
import SidecarAdmission.Proofs.Lifecycle.ReloadLoop

/-!
A load read by read. The configuration is read first, the certificates next and the key last, each
from the files as they are by then, and a load is over with the first of them that it fails at. If
the files stay as they are, what comes out is the state that they give; if they change while a load
is in flight, nothing is known of what it gives.
-/

set_option autoImplicit false
set_option relaxedAutoImplicit false

namespace SidecarAdmission

open SidecarAdmission.Storage

/-! ### Files with the same content -/

theorem Sidecar.Spec.ofFile_congr {a b : FileStore} {path : String}
    (h : a.read path = b.read path) :
    Sidecar.Spec.ofFile a path = Sidecar.Spec.ofFile b path := by
  simp only [Sidecar.Spec.ofFile, FileStore.readText, h]

namespace Tls.Credentials

theorem loadCertificates_congr {a b : FileStore} {path : String} (h : a.read path = b.read path) :
    loadCertificates a path = loadCertificates b path := by
  simp only [loadCertificates, blocks, h]

theorem loadKey_congr {a b : FileStore} {path : String} (h : a.read path = b.read path) :
    loadKey a path = loadKey b path := by
  simp only [loadKey, blocks, h]

end Tls.Credentials

namespace Lifecycle

/-- Whether two stores hold the same in the three files that a state is loaded from. -/
def SameInputs (p : Parameters) (a b : FileStore) : Prop :=
  ∀ path ∈ p.inputFiles, a.read path = b.read path

variable {p : Parameters} {a b : FileStore}

theorem SameInputs.refl : SameInputs p a a := fun _ _ => rfl

/-! ### Reads -/

/-- What a load has got so far. -/
inductive Progress where
  | nothing
  | spec (spec : Sidecar.Spec)
  | certificates (spec : Sidecar.Spec) (certificates : List Text.Octets)
  | finished (answer : Except LoadError Active)

namespace Progress

/-- What a load has got after its next read, from the files as they are. -/
def read (p : Parameters) (files : FileStore) : Progress → Progress
  | .nothing =>
    match Sidecar.Spec.ofFile files p.configFile with
    | .ok found => .spec found
    | .error e => .finished (.error (.config e))
  | .spec found =>
    match Tls.Credentials.loadCertificates files p.certificateFile with
    | .ok chain => .certificates found chain
    | .error e => .finished (.error (.credentials e))
  | .certificates found chain =>
    match Tls.Credentials.loadKey files p.keyFile with
    | .ok key =>
      match Tls.Key.algorithm? key with
      | some algorithm => .finished (.ok ⟨found, ⟨chain, key, algorithm⟩⟩)
      | none => .finished (.error (.credentials .unusableKey))
    | .error e => .finished (.error (.credentials e))
  | .finished answer => .finished answer

/-- Whether a load can have got this far with a number of reads. -/
def Takes : Progress → Nat → Prop
  | .nothing, n => n = 0
  | .spec _, n => n = 1
  | .certificates _ _, n => n = 2
  | .finished (.ok _), n => n = 3
  | .finished (.error _), n => 0 < n ∧ n ≤ 3

/-- Whether a load has more to read. -/
def HasMore : Progress → Prop
  | .finished _ => False
  | _ => True

theorem hasMore_or_finished (progress : Progress) :
    progress.HasMore ∨ ∃ answer, progress = .finished answer := by
  cases progress with
  | finished answer => exact .inr ⟨answer, rfl⟩
  | nothing | spec _ | certificates _ _ => exact .inl trivial

theorem read_congr (h : SameInputs p a b) : read p a = read p b := by
  have hconfig : a.read p.configFile = b.read p.configFile := h _ (by simp [Parameters.inputFiles])
  have hcertificates : a.read p.certificateFile = b.read p.certificateFile :=
    h _ (by simp [Parameters.inputFiles])
  have hkey : a.read p.keyFile = b.read p.keyFile := h _ (by simp [Parameters.inputFiles])
  funext progress
  cases progress with
  | nothing => simp only [read, Sidecar.Spec.ofFile_congr hconfig]
  | spec found => simp only [read, Tls.Credentials.loadCertificates_congr hcertificates]
  | certificates found chain => simp only [read, Tls.Credentials.loadKey_congr hkey]
  | finished answer => rfl

theorem Takes.read {progress : Progress} {n : Nat} (h : progress.Takes n) (hmore : progress.HasMore)
    (p : Parameters) (files : FileStore) : (progress.read p files).Takes (n + 1) := by
  cases progress with
  | nothing =>
    obtain rfl : n = 0 := h
    simp only [Progress.read]
    split
    · rfl
    · exact ⟨by omega, by omega⟩
  | spec found =>
    obtain rfl : n = 1 := h
    simp only [Progress.read]
    split
    · rfl
    · exact ⟨by omega, by omega⟩
  | certificates found chain =>
    obtain rfl : n = 2 := h
    simp only [Progress.read]
    split
    · split
      · rfl
      · exact ⟨by omega, by omega⟩
    · exact ⟨by omega, by omega⟩
  | finished answer => exact hmore.elim

theorem Takes.bounds {answer : Except LoadError Active} {n : Nat} (h : (finished answer).Takes n) :
    0 < n ∧ n ≤ 3 := by
  cases answer with
  | ok state =>
    obtain rfl : n = 3 := h
    omega
  | error e => exact h

theorem iterate_read_finished (p : Parameters) (files : FileStore) (n : Nat)
    (answer : Except LoadError Active) : (read p files)^[n] (.finished answer) = .finished answer :=
  Function.iterate_fixed rfl n

/-- Three reads of files that stay as they are give the state of the files. -/
theorem iterate_read_nothing (p : Parameters) (files : FileStore) :
    (read p files)^[3] .nothing = .finished (Active.ofFiles files p) := by
  show read p files (read p files (read p files .nothing)) = .finished (Active.ofFiles files p)
  unfold Active.ofFiles Tls.Credentials.ofFiles
  cases hconfig : Sidecar.Spec.ofFile files p.configFile with
  | error e => simp only [read, hconfig]
  | ok found =>
    cases hchain : Tls.Credentials.loadCertificates files p.certificateFile with
    | error e =>
      simp only [read, hconfig, hchain]
      rfl
    | ok chain =>
      cases hkey : Tls.Credentials.loadKey files p.keyFile with
      | error e =>
        simp only [read, hconfig, hchain, hkey]
        rfl
      | ok key =>
        cases halgorithm : Tls.Key.algorithm? key with
        | none =>
          simp only [read, hconfig, hchain, hkey, halgorithm, bind, Except.bind]
        | some algorithm =>
          simp only [read, hconfig, hchain, hkey, halgorithm, bind, Except.bind]

/-- A load that is over after some reads of files that stay as they are answers what the files
give. -/
theorem eq_ofFiles_of_iterate {files : FileStore} {n : Nat} {answer : Except LoadError Active}
    (h : (read p files)^[n] .nothing = .finished answer) (hn : n ≤ 3) :
    answer = Active.ofFiles files p := by
  have hthree : (read p files)^[3] .nothing = .finished answer := by
    obtain ⟨m, hm⟩ := Nat.exists_eq_add_of_le hn
    rw [hm, Nat.add_comm, Function.iterate_add_apply, h, iterate_read_finished]
  rw [iterate_read_nothing] at hthree
  exact (Progress.finished.inj hthree).symm

end Progress

/-! ### Loads in flight -/

/-- A load: how many changes of the files there had been when it was begun, when each read that is
over was begun and when the read that goes on was, and what the load has got so far. -/
structure Load where
  begun : Nat
  reads : List Nat
  reading : Option Nat
  progress : Progress

namespace Load

/-- How many changes there had been when each of the reads was begun. -/
def stamps (l : Load) : List Nat := l.reads ++ l.reading.toList

/-- A load after the read that goes on, which was begun at a time and has seen some files. -/
def endRead (l : Load) (p : Parameters) (begun : Nat) (seen : FileStore) : Load :=
  { l with reads := l.reads ++ [begun], reading := none, progress := l.progress.read p seen }

/-- What is known of a load when there have been so many changes and the files are as given. -/
structure IsSound (p : Parameters) (changes : Nat) (files : FileStore) (l : Load) : Prop where
  begun_le : l.begun ≤ changes
  stamps : ∀ n ∈ l.stamps, l.begun ≤ n ∧ n ≤ changes
  hasMore : l.reading ≠ none → l.progress.HasMore
  takes : l.progress.Takes l.reads.length
  progress : l.begun = changes → l.progress = (Progress.read p files)^[l.reads.length] .nothing

variable {p : Parameters} {changes : Nat} {files : FileStore} {l : Load}

theorem IsSound.start (p : Parameters) (changes : Nat) (files : FileStore) :
    IsSound p changes files ⟨changes, [], none, .nothing⟩ where
  begun_le := Nat.le_refl _
  stamps := by simp [Load.stamps]
  hasMore := by simp
  takes := rfl
  progress := fun _ => rfl

/-- After another change nothing is claimed of what a load that was begun before it has got. -/
theorem IsSound.change (h : l.IsSound p changes files) (files' : FileStore) :
    l.IsSound p (changes + 1) files' where
  begun_le := Nat.le_succ_of_le h.begun_le
  stamps := fun n hn => ⟨(h.stamps n hn).1, Nat.le_succ_of_le (h.stamps n hn).2⟩
  hasMore := h.hasMore
  takes := h.takes
  progress := by
    intro hbegun
    have hle := h.begun_le
    omega

theorem IsSound.touch (h : l.IsSound p changes files) {files' : FileStore}
    (hsame : SameInputs p files files') : l.IsSound p changes files' where
  begun_le := h.begun_le
  stamps := h.stamps
  hasMore := h.hasMore
  takes := h.takes
  progress := by
    intro hbegun
    rw [← Progress.read_congr hsame]
    exact h.progress hbegun

theorem IsSound.beginRead (h : l.IsSound p changes files)
    (hmore : l.progress.HasMore) : IsSound p changes files { l with reading := some changes } where
  begun_le := h.begun_le
  stamps := by
    intro n hn
    rcases List.mem_append.mp hn with hn | hn
    · exact h.stamps n (List.mem_append_left _ hn)
    · obtain rfl : n = changes := by simpa using hn
      exact ⟨h.begun_le, Nat.le_refl _⟩
  hasMore := fun _ => hmore
  takes := h.takes
  progress := h.progress

/-- A read that was begun after the last change has seen the files as they are; nothing is known of
what another read has seen. -/
theorem IsSound.endRead (h : l.IsSound p changes files) {begun : Nat}
    (hreading : l.reading = some begun) {seen : FileStore}
    (hseen : begun = changes → SameInputs p files seen) :
    (l.endRead p begun seen).IsSound p changes files where
  begun_le := h.begun_le
  stamps := by
    have hstamps : (l.endRead p begun seen).stamps = l.stamps := by
      simp [Load.stamps, Load.endRead, hreading]
    rw [hstamps]
    exact h.stamps
  hasMore := fun hne => absurd rfl hne
  takes := by
    have hmore : l.progress.HasMore := h.hasMore (by simp [hreading])
    simpa [Load.endRead] using h.takes.read hmore p seen
  progress := by
    intro hbegun
    have hstamp := h.stamps begun (by simp [Load.stamps, hreading])
    have hlast : begun = changes := by
      have hle : changes ≤ begun := by
        rw [← hbegun]
        exact hstamp.1
      omega
    show l.progress.read p seen = (Progress.read p files)^[(l.reads ++ [begun]).length] .nothing
    rw [← Progress.read_congr (hseen hlast), h.progress hbegun, List.length_append,
      List.length_singleton, Function.iterate_succ_apply']

/-- A read that no change comes into. -/
inductive ReadsQuietly (p : Parameters) (changes : Nat) (files : FileStore) (l : Load) :
    Load → Prop where
  | read (idle : l.reading = none) (more : l.progress.HasMore) :
    ReadsQuietly p changes files l (l.endRead p changes files)

/-- A load goes on to its end while the files stay as they are, and answers what they give. -/
theorem exists_finished {n : Nat} (hidle : l.reading = none)
    (hprogress : l.progress = (Progress.read p files)^[n] .nothing) (hn : n ≤ 3) :
    ∃ l', Relation.ReflTransGen (ReadsQuietly p changes files) l l' ∧ l'.reading = none ∧
      l'.begun = l.begun ∧ l'.progress = .finished (Active.ofFiles files p) := by
  -- The induction is on the number of reads that the load can still make.
  induction hk : 3 - n generalizing l n with
  | zero =>
    have hthree : n = 3 := by omega
    subst hthree
    rw [Progress.iterate_read_nothing] at hprogress
    exact ⟨l, .refl, hidle, rfl, hprogress⟩
  | succ k ih =>
    rcases l.progress.hasMore_or_finished with hmore | ⟨answer, hfinished⟩
    · have hread : (l.endRead p changes files).progress =
          (Progress.read p files)^[n + 1] .nothing := by
        rw [Function.iterate_succ_apply', ← hprogress]
        rfl
      obtain ⟨l', hreads, hidle', hbegun, hfinished⟩ := ih rfl hread (by omega) (by omega)
      exact ⟨l', hreads.head (.read hidle hmore), hidle', hbegun, hfinished⟩
    · have hanswer : answer = Active.ofFiles files p :=
        Progress.eq_ofFiles_of_iterate (hprogress.symm.trans hfinished) hn
      exact ⟨l, .refl, hidle, rfl, hfinished.trans (by rw [hanswer])⟩

end Load

/-! ### Loads that are over -/

/-- A load that is over, the state that was in force before, and how the load came out. -/
structure Attempt where
  load : Load
  before : Active
  result : LoadResult

/-- What is known of an attempt when there have been so many changes and the files are as given: its
load, and that it came out with what the load had got unless it broke off. -/
structure Attempt.IsSound (p : Parameters) (changes : Nat) (files : FileStore) (a : Attempt) :
    Prop where
  load : a.load.IsSound p changes files
  result : a.result = .aborted ∨
    ∃ answer, a.load.progress = .finished answer ∧ a.result = .ofExcept answer

/-- An attempt that was begun after the last change answers what the files give. -/
theorem Attempt.IsSound.result_eq {p : Parameters} {changes : Nat} {files : FileStore} {a : Attempt}
    (h : a.IsSound p changes files) (hbegun : a.load.begun = changes) :
    a.result = .aborted ∨ a.result = .ofExcept (Active.ofFiles files p) := by
  rcases h.result with habort | ⟨answer, hfinished, hresult⟩
  · exact .inl habort
  · have hprogress := h.load.progress hbegun
    have hreads : a.load.reads.length ≤ 3 := by
      have htakes := h.load.takes
      rw [hfinished] at htakes
      exact htakes.bounds.2
    rw [hfinished] at hprogress
    rw [hresult, Progress.eq_ofFiles_of_iterate hprogress.symm hreads]
    exact .inr rfl

/-- An attempt that did not break off has no read going on. -/
theorem Attempt.IsSound.length_stamps {p : Parameters} {changes : Nat} {files : FileStore}
    {a : Attempt} (h : a.IsSound p changes files) {answer : Except LoadError Active}
    (hfinished : a.load.progress = .finished answer) :
    (Progress.finished answer).Takes a.load.stamps.length := by
  have hreading : a.load.reading = none := by
    by_contra hne
    have hmore := h.load.hasMore hne
    rw [hfinished] at hmore
    exact hmore
  have htakes := h.load.takes
  rw [hfinished] at htakes
  simpa [Load.stamps, hreading] using htakes

/-- An attempt that gave a state has read all three files. -/
theorem Attempt.IsSound.length_stamps_of_loaded {p : Parameters} {changes : Nat} {files : FileStore}
    {a : Attempt} (h : a.IsSound p changes files) {state : Active}
    (hstate : a.result = .loaded state) : a.load.stamps.length = 3 := by
  obtain ⟨answer, hfinished, hresult⟩ := h.result.resolve_left (by simp [hstate])
  rw [hstate] at hresult
  obtain rfl : answer = .ok state := LoadResult.ofExcept_eq_loaded.mp hresult.symm
  exact h.length_stamps hfinished

/-- An attempt that failed has read a file at least. -/
theorem Attempt.IsSound.length_stamps_of_failed {p : Parameters} {changes : Nat} {files : FileStore}
    {a : Attempt} (h : a.IsSound p changes files) {e : LoadError}
    (hfailed : a.result = .failed e) : 0 < a.load.stamps.length := by
  obtain ⟨answer, hfinished, -⟩ := h.result.resolve_left (by simp [hfailed])
  exact (h.length_stamps hfinished).bounds.1

end Lifecycle

end SidecarAdmission
