import SidecarAdmission.Proofs.Lifecycle.Heartbeat
import SidecarAdmission.Proofs.Sidecar.Spec

/-!
A candidate for the state in force. It is made of three files, and eight checks are made of them in
a fixed order, each of one file. If all of them pass there is a state, with a specification from the
configuration alone and credentials from the other two files alone; otherwise the first check that
does not pass says why there is none, whatever the files behind it hold. How the blocks of a file
are told apart and which keys can be used is left to the readers of blocks and keys.
-/

set_option autoImplicit false
set_option relaxedAutoImplicit false

namespace SidecarAdmission.Lifecycle

open SidecarAdmission.Sidecar SidecarAdmission.Storage SidecarAdmission.Tls

/-! ### The checks -/

inductive Check where
  | configRead
  | configParsed
  | configFit
  | certificatesRead
  | certificatesFound
  | keyRead
  | keyFound
  | keyUsable
deriving DecidableEq, Repr

/-- The certificates among blocks, in their order. -/
def certificatesOf (blocks : List Pem.Block) : List Text.Octets :=
  (blocks.filter (·.label == .certificate)).map (·.content)

section Loaders

variable {files : FileStore} {path : String} {content : Text.Octets} {e : Failure}

theorem loadCertificates_of_unread (h : files.read path = .error e) :
    Credentials.loadCertificates files path = .error (.unreadable path (.file e)) := by
  simp [Credentials.loadCertificates, Credentials.blocks, h, bind, Except.bind]

theorem loadCertificates_of_read (h : files.read path = .ok content) :
    Credentials.loadCertificates files path =
      if (Pem.read content).isSound then
        if certificatesOf (Pem.read content).blocks = [] then .error (.noCertificates path)
        else .ok (certificatesOf (Pem.read content).blocks)
      else .error (.unreadable path .block) := by
  have hfound : ((Pem.read content).blocks.filter (·.label == .certificate)).map (·.content) =
      certificatesOf (Pem.read content).blocks := rfl
  simp only [Credentials.loadCertificates, Credentials.blocks, h, bind, Except.bind, hfound]
  cases (Pem.read content).isSound with
  | false => rfl
  | true => cases certificatesOf (Pem.read content).blocks <;> simp

theorem loadKey_of_unread (h : files.read path = .error e) :
    Credentials.loadKey files path = .error (.unreadable path (.file e)) := by
  simp [Credentials.loadKey, Credentials.blocks, h, bind, Except.bind]

theorem loadKey_of_read (h : files.read path = .ok content) :
    Credentials.loadKey files path =
      match (Pem.read content).blocks.find? Key.isPrivate with
      | some key => .ok key
      | none =>
        if (Pem.read content).isSound then .error (.noPrivateKey path)
        else .error (.unreadable path .block) := by
  cases hkey : (Pem.read content).blocks.find? Key.isPrivate <;>
    simp [Credentials.loadKey, Credentials.blocks, h, hkey, bind, Except.bind]

end Loaders

namespace Check

def ofConfig : List Check := [.configRead, .configParsed, .configFit]

def ofCertificates : List Check := [.certificatesRead, .certificatesFound]

def ofKey : List Check := [.keyRead, .keyFound, .keyUsable]

/-- All checks, in the order in which they are made. -/
def all : List Check := ofConfig ++ ofCertificates ++ ofKey

/-- The file of which a check is made. -/
def file (p : Parameters) : Check → String
  | .configRead | .configParsed | .configFit => p.configFile
  | .certificatesRead | .certificatesFound => p.certificateFile
  | .keyRead | .keyFound | .keyUsable => p.keyFile

/-- What a check finds wrong. It finds nothing where an earlier check of the same file has left
nothing to look at. -/
def fault? (p : Parameters) (files : FileStore) : Check → Option LoadError
  | .configRead =>
    match files.readText p.configFile with
    | .error e => some (.config (.unreadable e))
    | .ok _ => none
  | .configParsed =>
    match files.readText p.configFile with
    | .error _ => none
    | .ok text => if (Material.ofText? text).isNone then some (.config (.text .malformed)) else none
  | .configFit =>
    match files.readText p.configFile with
    | .error _ => none
    | .ok text =>
      (Material.ofText? text).bind fun m =>
        if m.defects = [] then none else some (.config (.text (.invalid m.defects)))
  | .certificatesRead =>
    match files.read p.certificateFile with
    | .error e => some (.credentials (.unreadable p.certificateFile (.file e)))
    | .ok content =>
      if (Pem.read content).isSound then none
      else some (.credentials (.unreadable p.certificateFile .block))
  | .certificatesFound =>
    match files.read p.certificateFile with
    | .error _ => none
    | .ok content =>
      if (Pem.read content).isSound ∧ certificatesOf (Pem.read content).blocks = [] then
        some (.credentials (.noCertificates p.certificateFile))
      else none
  | .keyRead =>
    match files.read p.keyFile with
    | .error e => some (.credentials (.unreadable p.keyFile (.file e)))
    | .ok content =>
      if ((Pem.read content).blocks.find? Key.isPrivate).isNone ∧ ¬ (Pem.read content).isSound then
        some (.credentials (.unreadable p.keyFile .block))
      else none
  | .keyFound =>
    match files.read p.keyFile with
    | .error _ => none
    | .ok content =>
      if ((Pem.read content).blocks.find? Key.isPrivate).isNone ∧ (Pem.read content).isSound then
        some (.credentials (.noPrivateKey p.keyFile))
      else none
  | .keyUsable =>
    match files.read p.keyFile with
    | .error _ => none
    | .ok content =>
      ((Pem.read content).blocks.find? Key.isPrivate).bind fun key =>
        if (Key.algorithm? key).isNone then some (.credentials .unusableKey) else none

variable {p : Parameters} {a b files : FileStore}

theorem mem_all (c : Check) : c ∈ all := by
  cases c <;> decide

/-- A check depends on its file only. -/
theorem fault?_congr {c : Check} (h : a.read (c.file p) = b.read (c.file p)) :
    c.fault? p a = c.fault? p b := by
  cases c with
  | configRead | configParsed | configFit =>
    have hread : a.read p.configFile = b.read p.configFile := h
    simp only [fault?, FileStore.readText, hread]
  | certificatesRead | certificatesFound =>
    have hread : a.read p.certificateFile = b.read p.certificateFile := h
    simp only [fault?, hread]
  | keyRead | keyFound | keyUsable =>
    have hread : a.read p.keyFile = b.read p.keyFile := h
    simp only [fault?, hread]

/-! ### What the loaders check -/

theorem findSome?_ofConfig :
    ofConfig.findSome? (fault? p files) =
      match Spec.ofFile files p.configFile with
      | .error e => some (.config e)
      | .ok _ => none := by
  unfold ofConfig Spec.ofFile Spec.ofText
  cases htext : files.readText p.configFile with
  | error e => simp [fault?, htext]
  | ok text =>
    cases hm : Material.ofText? text with
    | none => simp [fault?, htext, hm]
    | some m =>
      by_cases hdefects : m.defects = []
      · simp [fault?, htext, hm, hdefects]
      · simp [fault?, htext, hm, hdefects]

theorem findSome?_ofCertificates :
    ofCertificates.findSome? (fault? p files) =
      match Credentials.loadCertificates files p.certificateFile with
      | .error e => some (.credentials e)
      | .ok _ => none := by
  unfold ofCertificates
  cases hread : files.read p.certificateFile with
  | error e => simp [fault?, hread, loadCertificates_of_unread hread]
  | ok content =>
    rw [loadCertificates_of_read hread]
    cases hsound : (Pem.read content).isSound with
    | false => simp [fault?, hread, hsound]
    | true =>
      by_cases hnone : certificatesOf (Pem.read content).blocks = []
      · simp [fault?, hread, hsound, hnone]
      · simp [fault?, hread, hsound, hnone]

/-- The error that a key leads to, where it is only looked at once it has been loaded. -/
theorem findSome?_ofKey :
    ofKey.findSome? (fault? p files) =
      match Credentials.loadKey files p.keyFile with
      | .error e => some (.credentials e)
      | .ok key =>
        if (Key.algorithm? key).isNone then some (.credentials .unusableKey) else none := by
  unfold ofKey
  cases hread : files.read p.keyFile with
  | error e => simp [fault?, hread, loadKey_of_unread hread]
  | ok content =>
    rw [loadKey_of_read hread]
    cases hkey : (Pem.read content).blocks.find? Key.isPrivate with
    | none => cases hsound : (Pem.read content).isSound <;> simp [fault?, hread, hkey, hsound]
    | some key => cases halgorithm : Key.algorithm? key <;> simp [fault?, hread, hkey, halgorithm]

/-- The first check that does not pass tells why there is no state. -/
theorem findSome?_all :
    all.findSome? (fault? p files) =
      match Active.ofFiles files p with
      | .error e => some e
      | .ok _ => none := by
  unfold all Active.ofFiles Credentials.ofFiles
  rw [List.findSome?_append, List.findSome?_append, findSome?_ofConfig, findSome?_ofCertificates,
    findSome?_ofKey]
  cases Spec.ofFile files p.configFile with
  | error e => rfl
  | ok spec =>
    cases Credentials.loadCertificates files p.certificateFile with
    | error e => rfl
    | ok chain =>
      cases Credentials.loadKey files p.keyFile with
      | error e => rfl
      | ok key =>
        cases halgorithm : Key.algorithm? key with
        | none => simp [bind, Except.bind, halgorithm]
        | some algorithm => simp [bind, Except.bind, halgorithm]

/-- A check that does not pass keeps the files of later checks from being looked at. -/
theorem ofFiles_eq_error_iff {e : LoadError} :
    Active.ofFiles files p = .error e ↔
      ∃ before c after, all = before ++ c :: after ∧ c.fault? p files = some e ∧
        ∀ b ∈ before, b.fault? p files = none := by
  have hfirst := List.findSome?_eq_some_iff (f := fault? p files) (l := all) (b := e)
  rw [← hfirst, findSome?_all]
  cases Active.ofFiles files p <;> simp

theorem exists_ofFiles_eq_ok_iff :
    (∃ state, Active.ofFiles files p = .ok state) ↔ ∀ c, fault? p files c = none := by
  have hnone : all.findSome? (fault? p files) = none ↔ ∀ c ∈ all, fault? p files c = none :=
    List.findSome?_eq_none_iff
  rw [findSome?_all] at hnone
  constructor
  · rintro ⟨state, hstate⟩ c
    rw [hstate] at hnone
    exact hnone.mp rfl c (mem_all c)
  · intro hpass
    have hall := hnone.mpr fun c _ => hpass c
    cases hfiles : Active.ofFiles files p with
    | ok state => exact ⟨state, rfl⟩
    | error e =>
      rw [hfiles] at hall
      contradiction

end Check

/-! ### The state that files yield -/

/-- A state is made of the material in a fit configuration, of all certificates in a file whose
blocks are all sound, and of the first private key in another file, which is usable. -/
structure Yields (p : Parameters) (files : FileStore) (state : Active) : Prop where
  spec : ∃ text m, files.readText p.configFile = .ok text ∧ Material.ofText? text = some m ∧
    IsFit m.containers m.volumes m.imagePullSecrets ∧
      state.spec = .ofMaterial m.containers m.volumes m.imagePullSecrets
  certificates : ∃ content, files.read p.certificateFile = .ok content ∧
    (Pem.read content).isSound = true ∧
      certificatesOf (Pem.read content).blocks = state.credentials.certificates
  certified : state.credentials.certificates ≠ []
  key : ∃ content, files.read p.keyFile = .ok content ∧
    (Pem.read content).blocks.find? Key.isPrivate = some state.credentials.key
  algorithm : Key.algorithm? state.credentials.key = some state.credentials.algorithm

variable {p : Parameters} {files : FileStore} {path : String}

theorem ofFile_eq_ok_iff {spec : Spec} :
    Spec.ofFile files path = .ok spec ↔
      ∃ text, files.readText path = .ok text ∧ Spec.ofText text = .ok spec := by
  unfold Spec.ofFile
  cases files.readText path with
  | error e => simp
  | ok text => cases hspec : Spec.ofText text <;> simp [hspec]

theorem loadCertificates_eq_ok_iff {chain : List Text.Octets} :
    Credentials.loadCertificates files path = .ok chain ↔
      (∃ content, files.read path = .ok content ∧ (Pem.read content).isSound = true ∧
        certificatesOf (Pem.read content).blocks = chain) ∧ chain ≠ [] := by
  cases hread : files.read path with
  | error e => simp [loadCertificates_of_unread hread]
  | ok content =>
    rw [loadCertificates_of_read hread]
    cases hsound : (Pem.read content).isSound with
    | false => simp [hsound]
    | true =>
      by_cases hnone : certificatesOf (Pem.read content).blocks = []
      · simp [hsound, hnone]
      · simp only [if_true, if_neg hnone, Except.ok.injEq, exists_eq_left', hsound, true_and]
        constructor
        · rintro rfl
          exact ⟨rfl, hnone⟩
        · rintro ⟨hsame, -⟩
          exact hsame

theorem loadKey_eq_ok_iff {key : Pem.Block} :
    Credentials.loadKey files path = .ok key ↔
      ∃ content, files.read path = .ok content ∧
        (Pem.read content).blocks.find? Key.isPrivate = some key := by
  cases hread : files.read path with
  | error e => simp [loadKey_of_unread hread]
  | ok content =>
    rw [loadKey_of_read hread]
    cases hkey : (Pem.read content).blocks.find? Key.isPrivate with
    | none => cases hsound : (Pem.read content).isSound <;> simp [hkey]
    | some first => simp [hkey]

theorem ofFiles_eq_ok_iff {state : Active} :
    Active.ofFiles files p = .ok state ↔ Yields p files state := by
  constructor
  · intro h
    obtain ⟨hspec, hchain, hkey, halgorithm⟩ := Active.parts_of_ofFiles h
    obtain ⟨text, htext, hmade⟩ := ofFile_eq_ok_iff.mp hspec
    obtain ⟨m, hm, hfit, hsame⟩ := Spec.ofText_eq_ok_iff.mp hmade
    obtain ⟨hfound, hsome⟩ := loadCertificates_eq_ok_iff.mp hchain
    exact ⟨⟨text, m, htext, hm, hfit, hsame⟩, hfound, hsome, loadKey_eq_ok_iff.mp hkey, halgorithm⟩
  · rintro ⟨⟨text, m, htext, hm, hfit, hsame⟩, hfound, hsome, hfirst, halgorithm⟩
    have hmade := Spec.ofText_eq_ok_iff.mpr ⟨m, hm, hfit, hsame⟩
    have hspec := ofFile_eq_ok_iff.mpr ⟨text, htext, hmade⟩
    have hchain := loadCertificates_eq_ok_iff.mpr ⟨hfound, hsome⟩
    have hkey := loadKey_eq_ok_iff.mpr hfirst
    simp [Active.ofFiles, Credentials.ofFiles, hspec, hchain, hkey, halgorithm, bind, Except.bind]

/-- The specification comes from the configuration. -/
theorem Yields.spec_congr {other : FileStore} {state next : Active} (h : Yields p files state)
    (hnext : Yields p other next) (hconfig : other.read p.configFile = files.read p.configFile) :
    next.spec = state.spec := by
  obtain ⟨text, m, htext, hm, -, hspec⟩ := h.spec
  obtain ⟨text', m', htext', hm', -, hspec'⟩ := hnext.spec
  have hsame : other.readText p.configFile = files.readText p.configFile := by
    simp only [FileStore.readText, hconfig]
  rw [hsame, htext] at htext'
  obtain rfl := Except.ok.inj htext'
  obtain rfl := Option.some.inj (hm.symm.trans hm')
  rw [hspec, hspec']

/-- The credentials come from the files of the certificates and of the key. -/
theorem Yields.credentials_congr {other : FileStore} {state next : Active}
    (h : Yields p files state) (hnext : Yields p other next)
    (hchain : other.read p.certificateFile = files.read p.certificateFile)
    (hkey : other.read p.keyFile = files.read p.keyFile) :
    next.credentials = state.credentials := by
  obtain ⟨content, hread, -, hfound⟩ := h.certificates
  obtain ⟨content', hread', -, hfound'⟩ := hnext.certificates
  rw [hchain, hread] at hread'
  obtain rfl := Except.ok.inj hread'
  have hcertificates := hfound'.symm.trans hfound
  obtain ⟨content, hread, hfirst⟩ := h.key
  obtain ⟨content', hread', hfirst'⟩ := hnext.key
  rw [hkey, hread] at hread'
  obtain rfl := Except.ok.inj hread'
  have hblock := Option.some.inj (hfirst'.symm.trans hfirst)
  have halgorithm := hnext.algorithm
  rw [hblock, h.algorithm] at halgorithm
  cases hold : state.credentials with
  | mk certificates key algorithm =>
    cases hnew : next.credentials with
    | mk certificates' key' algorithm' =>
      rw [hold, hnew] at hcertificates hblock halgorithm
      obtain rfl : certificates' = certificates := hcertificates
      obtain rfl : key' = key := hblock
      obtain rfl := Option.some.inj halgorithm
      rfl

/-- A candidate is all or nothing. There is a state exactly if every check passes, and it is the one
that the files yield, its specification a matter of the configuration and its credentials of the
other two files. Otherwise the error is that of the first check that does not pass, and it stays the
same as long as that check and those before it find the same in their files. -/
theorem Active.all_or_first_fault (p : Parameters) (files : FileStore) :
    (∀ state, Active.ofFiles files p = .ok state ↔ Yields p files state) ∧
      ((∃ state, Active.ofFiles files p = .ok state) ↔ ∀ c, Check.fault? p files c = none) ∧
      (∀ other state next, Active.ofFiles files p = .ok state → Active.ofFiles other p = .ok next →
        (other.read p.configFile = files.read p.configFile → next.spec = state.spec) ∧
          (other.read p.certificateFile = files.read p.certificateFile →
            other.read p.keyFile = files.read p.keyFile →
              next.credentials = state.credentials)) ∧
      (∀ e, Active.ofFiles files p = .error e ↔
        ∃ before c after, Check.all = before ++ c :: after ∧ Check.fault? p files c = some e ∧
          ∀ b ∈ before, Check.fault? p files b = none) ∧
      ∀ e before c after, Check.all = before ++ c :: after → Check.fault? p files c = some e →
        (∀ b ∈ before, Check.fault? p files b = none) →
          ∀ other : FileStore,
            (∀ b ∈ before ++ [c], other.read (b.file p) = files.read (b.file p)) →
              Active.ofFiles other p = .error e := by
  refine ⟨fun _ => ofFiles_eq_ok_iff, Check.exists_ofFiles_eq_ok_iff, ?_,
    fun _ => Check.ofFiles_eq_error_iff, ?_⟩
  · intro other state next hstate hnext
    have hyields := ofFiles_eq_ok_iff.mp hstate
    have hyields' := ofFiles_eq_ok_iff.mp hnext
    exact ⟨hyields.spec_congr hyields', hyields.credentials_congr hyields'⟩
  · intro e before c after hall hfault hpass other hsame
    have hseen : ∀ b ∈ before ++ [c], Check.fault? p other b = Check.fault? p files b :=
      fun b hb => Check.fault?_congr (hsame b hb)
    refine Check.ofFiles_eq_error_iff.mpr ⟨before, c, after, hall, ?_, ?_⟩
    · rw [hseen c (by simp), hfault]
    · intro b hb
      rw [hseen b (List.mem_append_left _ hb)]
      exact hpass b hb

/-- A configuration, a file without certificates, and no file for the key. -/
def uncertifiedFiles : FileStore :=
  ⟨["home"], [(["home", "config"], .file []), (["home", "cert"], .file [])]⟩

/-- Usable files yield a state; where there are no certificates, no key helps. -/
theorem Active.all_or_first_fault_nearby :
    (∃ state, Active.ofFiles Reloading.usableFiles Reloading.nearby = .ok state ∧
      Yields Reloading.nearby Reloading.usableFiles state) ∧
      ∀ other : FileStore, other.read "config" = uncertifiedFiles.read "config" →
        other.read "cert" = uncertifiedFiles.read "cert" →
          Active.ofFiles other Reloading.nearby =
            .error (.credentials (.noCertificates "cert")) := by
  constructor
  · obtain ⟨state, hstate⟩ := Reloading.exists_active_usableFiles
    have hyields := Active.all_or_first_fault Reloading.nearby Reloading.usableFiles
    exact ⟨state, hstate, (hyields.1 state).mp hstate⟩
  · intro other hconfig hchain
    have hfault := Active.all_or_first_fault Reloading.nearby uncertifiedFiles
    refine hfault.2.2.2.2 (.credentials (.noCertificates "cert"))
      [.configRead, .configParsed, .configFit, .certificatesRead] .certificatesFound Check.ofKey rfl
      (by decide +kernel) (by decide +kernel) other ?_
    intro b hb
    cases b with
    | configRead | configParsed | configFit => exact hconfig
    | certificatesRead | certificatesFound => exact hchain
    | keyRead | keyFound | keyUsable => exact absurd hb (by decide)

end SidecarAdmission.Lifecycle
