/-!
The counters of the webhook, by name and label.
-/

set_option autoImplicit false
set_option relaxedAutoImplicit false

namespace SidecarAdmission.Telemetry

/-- How a review came out. -/
inductive Outcome where
  | patched
  | skipped
  | error
  | invalid
deriving DecidableEq, Repr, Inhabited

/-- What is counted. -/
inductive Counter where
  | admission (outcome : Outcome)
  | reload (succeeded : Bool)
  | healthWriteFailure
deriving DecidableEq, Repr, Inhabited

/-- The label of an outcome. -/
def Outcome.label : Outcome → String
  | .patched => "patched"
  | .skipped => "skipped"
  | .error => "error"
  | .invalid => "invalid"

/-- The name of a counter with its label. -/
def Counter.name : Counter → String
  | .admission o => "sidecar_admission_total\x7boutcome=\"" ++ o.label ++ "\"\x7d"
  | .reload true => "sidecar_reload_total\x7bresult=\"success\"\x7d"
  | .reload false => "sidecar_reload_total\x7bresult=\"failure\"\x7d"
  | .healthWriteFailure => "sidecar_health_write_failures_total"

end SidecarAdmission.Telemetry
