import SidecarAdmission.Resource.Value
import SidecarAdmission.Sidecar.Image

/-!
The defaults that the orchestrator gives to containers and volumes. They are filled in beforehand,
so that what is injected equals what is stored. A default only ever fills a slot without a value.
-/

set_option autoImplicit false
set_option relaxedAutoImplicit false

namespace SidecarAdmission.Sidecar.Completion

open SidecarAdmission.Resource

/-- A selector of a field of the pod. -/
def fieldReference : Value → Value := Value.fill "apiVersion" (.text "v1")

/-- An HTTP request of a probe or a handler. -/
def httpRequest (v : Value) : Value :=
  v |> Value.fill "path" (.text "/") |> Value.fill "scheme" (.text "HTTP")

/-- A probe of a container. -/
def probe (v : Value) : Value :=
  v |> Value.fill "timeoutSeconds" (.int 1)
    |> Value.fill "periodSeconds" (.int 10)
    |> Value.fill "successThreshold" (.int 1)
    |> Value.fill "failureThreshold" (.int 3)
    |> Value.modify "httpGet" httpRequest

/-- A handler of the lifecycle of a container. -/
def handler : Value → Value := Value.modify "httpGet" httpRequest

/-- An environment variable. -/
def envVar : Value → Value := Value.modify "valueFrom" (Value.modify "fieldRef" fieldReference)

/-- Entries with those of a second list added whose keys they lack. -/
def addMissing (entries : List (String × Value)) (more : List (String × Value)) :
    List (String × Value) :=
  more.foldl
    (fun es (k, v) => if (es.lookup k).isSome then es else Json.insertSorted k v es) entries

/-- Resource requirements: what is limited is also requested. -/
def resources (v : Value) : Value :=
  match (v.get? "limits").map Value.entries with
  | none | some [] => v
  | some limits =>
    v.updateSlot "requests" fun requests =>
      some (.map (addMissing ((requests.map Value.entries).getD []) limits))

/-- A container. -/
def container (v : Value) : Value :=
  v |> Value.fill "terminationMessagePath" (.text "/dev/termination-log")
    |> Value.fill "terminationMessagePolicy" (.text "File")
    |> Value.fill "imagePullPolicy" (.text (Image.pullPolicy (v.textAt "image")).text)
    |> Value.modifyEach "ports" (Value.fill "protocol" (.text "TCP"))
    |> Value.modifyEach "env" envVar
    |> Value.modify "livenessProbe" probe
    |> Value.modify "readinessProbe" probe
    |> Value.modify "startupProbe" probe
    |> Value.modify "lifecycle"
        (fun l => l |> Value.modify "postStart" handler |> Value.modify "preStop" handler)
    |> Value.modify "resources" resources

/-- The mode of projected files, 0644. -/
def defaultMode : Value := .int 420

/-- An item of the downward API. -/
def downwardItem : Value → Value := Value.modify "fieldRef" fieldReference

/-- A source of a projected volume. -/
def projection (v : Value) : Value :=
  v |> Value.modify "serviceAccountToken" (Value.fill "expirationSeconds" (.int 3600))
    |> Value.modify "downwardAPI" (Value.modifyEach "items" downwardItem)

/-- Whether a volume has no source, that is, no value but its name. -/
def lacksSource (v : Value) : Bool := v.slots.all fun (n, s) => n == "name" || s.isNone

/-- A volume. -/
def volume (v : Value) : Value :=
  (if lacksSource v then Value.fill "emptyDir" (Value.empty .emptyDirVolumeSource) v else v)
    |> Value.modify "secret" (Value.fill "defaultMode" defaultMode)
    |> Value.modify "configMap" (Value.fill "defaultMode" defaultMode)
    |> Value.modify "projected"
        (fun p =>
          p |> Value.fill "defaultMode" defaultMode |> Value.modifyEach "sources" projection)
    |> Value.modify "downwardAPI"
        (fun d =>
          d |> Value.fill "defaultMode" defaultMode |> Value.modifyEach "items" downwardItem)
    |> Value.modify "hostPath" (Value.fill "type" (.text ""))

end SidecarAdmission.Sidecar.Completion
