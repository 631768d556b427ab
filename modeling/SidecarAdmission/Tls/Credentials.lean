import SidecarAdmission.Storage.FileStore
import SidecarAdmission.Tls.Key

/-!
What the server shows to its clients: a chain of certificates and the key that belongs to it. The
certificates are read before the key, and whether they belong together is not checked.
-/

set_option autoImplicit false
set_option relaxedAutoImplicit false

namespace SidecarAdmission.Tls

open SidecarAdmission.Text SidecarAdmission.Storage

/-- A chain of certificates and a private key. -/
structure Credentials where
  certificates : List Octets
  key : Pem.Block
  algorithm : Algorithm
deriving DecidableEq, Repr, Inhabited

/-- Why a file could not be read: the file itself, or a block in it. -/
inductive ReadFailure where
  | file (cause : Failure)
  | block
deriving DecidableEq, Repr, Inhabited

/-- Why there are no credentials. -/
inductive CredentialsError where
  | unreadable (path : String) (cause : ReadFailure)
  | noCertificates (path : String)
  | noPrivateKey (path : String)
  | unusableKey
deriving DecidableEq, Repr, Inhabited

/-- What is said of a key of no known algorithm. -/
def unusableKeyText : String := "failed to parse private key as RSA, ECDSA, or EdDSA"

/-- The wording of a failure, without what is wrong with a block. -/
def CredentialsError.message : CredentialsError → String
  | .unreadable path (.file cause) => "could not read " ++ path ++ ": " ++ cause.message
  | .unreadable path .block => "could not read " ++ path ++ ": "
  | .noCertificates path => "no certificates found in " ++ path
  | .noPrivateKey path => "no private key found in " ++ path
  | .unusableKey => "tls error: unexpected error: " ++ unusableKeyText

namespace Credentials

/-- The blocks of a file. -/
def blocks (files : FileStore) (path : String) : Except CredentialsError Pem.Reading :=
  match files.read path with
  | .ok content => .ok (Pem.read content)
  | .error e => .error (.unreadable path (.file e))

/-- The certificates of a file, of which every block must be sound. -/
def loadCertificates (files : FileStore) (path : String) :
    Except CredentialsError (List Octets) := do
  let reading ← blocks files path
  if !reading.isSound then .error (.unreadable path .block)
  else
    match (reading.blocks.filter (·.label == .certificate)).map (·.content) with
    | [] => .error (.noCertificates path)
    | certificates => .ok certificates

/-- The first private key of a file; the blocks after it do not matter. -/
def loadKey (files : FileStore) (path : String) : Except CredentialsError Pem.Block := do
  let reading ← blocks files path
  match reading.blocks.find? Key.isPrivate with
  | some key => .ok key
  | none =>
    if reading.isSound then .error (.noPrivateKey path) else .error (.unreadable path .block)

/-- The credentials in two files. -/
def ofFiles (files : FileStore) (certificatePath keyPath : String) :
    Except CredentialsError Credentials := do
  let certificates ← loadCertificates files certificatePath
  let key ← loadKey files keyPath
  match Key.algorithm? key with
  | some algorithm => .ok ⟨certificates, key, algorithm⟩
  | none => .error .unusableKey

end Credentials

/-- The protocols that the server speaks, the best first. -/
def serverProtocols : List String := ["h2", "http/1.1"]

/-- The protocol of a connection: none inside if the client names none, and none at all if it names
none that the server speaks. -/
def protocol? (client : List String) : Option (Option String) :=
  if client.isEmpty then some none
  else (serverProtocols.find? client.contains).map some

end SidecarAdmission.Tls
