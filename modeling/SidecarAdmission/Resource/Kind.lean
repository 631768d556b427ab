/-!
The kinds of records that a pod is made of, and the fields of each in the order in which they are
written. A required field is always written, a constant one always with its own text; all others may
be absent.
-/

set_option autoImplicit false
set_option relaxedAutoImplicit false

namespace SidecarAdmission.Resource

/-- The kinds of records. -/
inductive Kind where
  | pod
  | status
  | userInfo
  | objectMeta
  | podSpec
  | podStatus
  | statusDetails
  | listMeta
  | managedFieldsEntry
  | ownerReference
  | affinity
  | container
  | podDNSConfig
  | ephemeralContainer
  | hostAlias
  | localObjectReference
  | podOS
  | podReadinessGate
  | podResourceClaim
  | resourceRequirements
  | podSchedulingGate
  | podSecurityContext
  | toleration
  | topologySpreadConstraint
  | volume
  | podCondition
  | containerStatus
  | hostIP
  | podIP
  | podResourceClaimStatus
  | statusCause
  | nodeAffinity
  | podAffinity
  | podAntiAffinity
  | envVar
  | envFromSource
  | lifecycle
  | probe
  | containerPort
  | containerResizePolicy
  | securityContext
  | volumeDevice
  | volumeMount
  | podDNSConfigOption
  | resourceClaim
  | appArmorProfile
  | seLinuxOptions
  | seccompProfile
  | sysctl
  | windowsSecurityContextOptions
  | labelSelector
  | awsElasticBlockStoreVolumeSource
  | azureDiskVolumeSource
  | azureFileVolumeSource
  | cephFSVolumeSource
  | cinderVolumeSource
  | configMapVolumeSource
  | csiVolumeSource
  | downwardAPIVolumeSource
  | emptyDirVolumeSource
  | ephemeralVolumeSource
  | fcVolumeSource
  | flexVolumeSource
  | flockerVolumeSource
  | gcePersistentDiskVolumeSource
  | gitRepoVolumeSource
  | glusterfsVolumeSource
  | hostPathVolumeSource
  | imageVolumeSource
  | iscsiVolumeSource
  | nfsVolumeSource
  | persistentVolumeClaimVolumeSource
  | photonPersistentDiskVolumeSource
  | portworxVolumeSource
  | projectedVolumeSource
  | quobyteVolumeSource
  | rbdVolumeSource
  | scaleIOVolumeSource
  | secretVolumeSource
  | storageOSVolumeSource
  | vsphereVirtualDiskVolumeSource
  | resourceStatus
  | containerState
  | containerUser
  | volumeMountStatus
  | preferredSchedulingTerm
  | nodeSelector
  | weightedPodAffinityTerm
  | podAffinityTerm
  | envVarSource
  | configMapEnvSource
  | secretEnvSource
  | lifecycleHandler
  | execAction
  | grpcAction
  | httpGetAction
  | tcpSocketAction
  | capabilities
  | labelSelectorRequirement
  | keyToPath
  | downwardAPIVolumeFile
  | persistentVolumeClaimTemplate
  | volumeProjection
  | resourceHealth
  | containerStateRunning
  | containerStateTerminated
  | containerStateWaiting
  | linuxContainerUser
  | nodeSelectorTerm
  | configMapKeySelector
  | objectFieldSelector
  | resourceFieldSelector
  | secretKeySelector
  | sleepAction
  | httpHeader
  | persistentVolumeClaimSpec
  | clusterTrustBundleProjection
  | configMapProjection
  | downwardAPIProjection
  | secretProjection
  | serviceAccountTokenProjection
  | nodeSelectorRequirement
  | typedLocalObjectReference
  | typedObjectReference
  | volumeResourceRequirements
deriving DecidableEq, Repr, Inhabited

/-- The types of fields. -/
inductive Ty where
  | text
  | quantity
  | int32
  | int64
  | bool
  | intOrText
  | time
  | free
  | constant (text : String)
  | list (item : Ty)
  | map (value : Ty)
  | record (kind : Kind)
deriving DecidableEq, Repr, Inhabited

/-- A field of a record; a required one has a value even where none is given. -/
structure Field where
  name : String
  type : Ty
  isRequired : Bool
deriving DecidableEq, Repr, Inhabited

namespace Kind

private def optional (name : String) (type : Ty) : Field := ⟨name, type, false⟩

private def required (name : String) (type : Ty) : Field := ⟨name, type, true⟩

private def constant (name text : String) : Field := ⟨name, .constant text, true⟩

/-- The fields of a kind of record, in writing order. -/
def fields : Kind → List Field
  | .pod => [
    constant "apiVersion" "v1", constant "kind" "Pod", required "metadata" (.record .objectMeta),
    optional "spec" (.record .podSpec), optional "status" (.record .podStatus)]
  | .status => [
    constant "apiVersion" "v1", constant "kind" "Status", optional "code" .int32,
    optional "details" (.record .statusDetails), optional "message" .text,
    required "metadata" (.record .listMeta), optional "reason" .text, optional "status" .text]
  | .userInfo => [
    optional "extra" (.map (.list .text)), optional "groups" (.list .text), optional "uid" .text,
    optional "username" .text]
  | .objectMeta => [
    optional "annotations" (.map .text), optional "creationTimestamp" .time,
    optional "deletionGracePeriodSeconds" .int64, optional "deletionTimestamp" .time,
    optional "finalizers" (.list .text), optional "generateName" .text,
    optional "generation" .int64, optional "labels" (.map .text),
    optional "managedFields" (.list (.record .managedFieldsEntry)), optional "name" .text,
    optional "namespace" .text, optional "ownerReferences" (.list (.record .ownerReference)),
    optional "resourceVersion" .text, optional "selfLink" .text, optional "uid" .text]
  | .podSpec => [
    optional "activeDeadlineSeconds" .int64, optional "affinity" (.record .affinity),
    optional "automountServiceAccountToken" .bool,
    required "containers" (.list (.record .container)),
    optional "dnsConfig" (.record .podDNSConfig), optional "dnsPolicy" .text,
    optional "enableServiceLinks" .bool,
    optional "ephemeralContainers" (.list (.record .ephemeralContainer)),
    optional "hostAliases" (.list (.record .hostAlias)), optional "hostIPC" .bool,
    optional "hostNetwork" .bool, optional "hostPID" .bool, optional "hostUsers" .bool,
    optional "hostname" .text, optional "imagePullSecrets" (.list (.record .localObjectReference)),
    optional "initContainers" (.list (.record .container)), optional "nodeName" .text,
    optional "nodeSelector" (.map .text), optional "os" (.record .podOS),
    optional "overhead" (.map .quantity), optional "preemptionPolicy" .text,
    optional "priority" .int32, optional "priorityClassName" .text,
    optional "readinessGates" (.list (.record .podReadinessGate)),
    optional "resourceClaims" (.list (.record .podResourceClaim)),
    optional "resources" (.record .resourceRequirements), optional "restartPolicy" .text,
    optional "runtimeClassName" .text, optional "schedulerName" .text,
    optional "schedulingGates" (.list (.record .podSchedulingGate)),
    optional "securityContext" (.record .podSecurityContext), optional "serviceAccount" .text,
    optional "serviceAccountName" .text, optional "setHostnameAsFQDN" .bool,
    optional "shareProcessNamespace" .bool, optional "subdomain" .text,
    optional "terminationGracePeriodSeconds" .int64,
    optional "tolerations" (.list (.record .toleration)),
    optional "topologySpreadConstraints" (.list (.record .topologySpreadConstraint)),
    optional "volumes" (.list (.record .volume))]
  | .podStatus => [
    optional "conditions" (.list (.record .podCondition)),
    optional "containerStatuses" (.list (.record .containerStatus)),
    optional "ephemeralContainerStatuses" (.list (.record .containerStatus)),
    optional "hostIP" .text, optional "hostIPs" (.list (.record .hostIP)),
    optional "initContainerStatuses" (.list (.record .containerStatus)), optional "message" .text,
    optional "nominatedNodeName" .text, optional "phase" .text, optional "podIP" .text,
    optional "podIPs" (.list (.record .podIP)), optional "qosClass" .text, optional "reason" .text,
    optional "resize" .text,
    optional "resourceClaimStatuses" (.list (.record .podResourceClaimStatus)),
    optional "startTime" .time]
  | .statusDetails => [
    optional "causes" (.list (.record .statusCause)), optional "group" .text, optional "kind" .text,
    optional "name" .text, optional "retryAfterSeconds" .int32, optional "uid" .text]
  | .listMeta => [
    optional "continue" .text, optional "remainingItemCount" .int64,
    optional "resourceVersion" .text, optional "selfLink" .text]
  | .managedFieldsEntry => [
    optional "apiVersion" .text, optional "fieldsType" .text, optional "fieldsV1" .free,
    optional "manager" .text, optional "operation" .text, optional "subresource" .text,
    optional "time" .time]
  | .ownerReference => [
    required "apiVersion" .text, optional "blockOwnerDeletion" .bool, optional "controller" .bool,
    required "kind" .text, required "name" .text, required "uid" .text]
  | .affinity => [
    optional "nodeAffinity" (.record .nodeAffinity), optional "podAffinity" (.record .podAffinity),
    optional "podAntiAffinity" (.record .podAntiAffinity)]
  | .container => [
    optional "args" (.list .text), optional "command" (.list .text),
    optional "env" (.list (.record .envVar)), optional "envFrom" (.list (.record .envFromSource)),
    optional "image" .text, optional "imagePullPolicy" .text,
    optional "lifecycle" (.record .lifecycle), optional "livenessProbe" (.record .probe),
    required "name" .text, optional "ports" (.list (.record .containerPort)),
    optional "readinessProbe" (.record .probe),
    optional "resizePolicy" (.list (.record .containerResizePolicy)),
    optional "resources" (.record .resourceRequirements), optional "restartPolicy" .text,
    optional "securityContext" (.record .securityContext), optional "startupProbe" (.record .probe),
    optional "stdin" .bool, optional "stdinOnce" .bool, optional "terminationMessagePath" .text,
    optional "terminationMessagePolicy" .text, optional "tty" .bool,
    optional "volumeDevices" (.list (.record .volumeDevice)),
    optional "volumeMounts" (.list (.record .volumeMount)), optional "workingDir" .text]
  | .podDNSConfig => [
    optional "nameservers" (.list .text), optional "options" (.list (.record .podDNSConfigOption)),
    optional "searches" (.list .text)]
  | .ephemeralContainer => [
    optional "args" (.list .text), optional "command" (.list .text),
    optional "env" (.list (.record .envVar)), optional "envFrom" (.list (.record .envFromSource)),
    optional "image" .text, optional "imagePullPolicy" .text,
    optional "lifecycle" (.record .lifecycle), optional "livenessProbe" (.record .probe),
    required "name" .text, optional "ports" (.list (.record .containerPort)),
    optional "readinessProbe" (.record .probe),
    optional "resizePolicy" (.list (.record .containerResizePolicy)),
    optional "resources" (.record .resourceRequirements), optional "restartPolicy" .text,
    optional "securityContext" (.record .securityContext), optional "startupProbe" (.record .probe),
    optional "stdin" .bool, optional "stdinOnce" .bool, optional "targetContainerName" .text,
    optional "terminationMessagePath" .text, optional "terminationMessagePolicy" .text,
    optional "tty" .bool, optional "volumeDevices" (.list (.record .volumeDevice)),
    optional "volumeMounts" (.list (.record .volumeMount)), optional "workingDir" .text]
  | .hostAlias => [optional "hostnames" (.list .text), required "ip" .text]
  | .localObjectReference => [required "name" .text]
  | .podOS => [required "name" .text]
  | .podReadinessGate => [required "conditionType" .text]
  | .podResourceClaim => [
    required "name" .text, optional "resourceClaimName" .text,
    optional "resourceClaimTemplateName" .text]
  | .resourceRequirements => [
    optional "claims" (.list (.record .resourceClaim)), optional "limits" (.map .quantity),
    optional "requests" (.map .quantity)]
  | .podSchedulingGate => [required "name" .text]
  | .podSecurityContext => [
    optional "appArmorProfile" (.record .appArmorProfile), optional "fsGroup" .int64,
    optional "fsGroupChangePolicy" .text, optional "runAsGroup" .int64,
    optional "runAsNonRoot" .bool, optional "runAsUser" .int64,
    optional "seLinuxChangePolicy" .text, optional "seLinuxOptions" (.record .seLinuxOptions),
    optional "seccompProfile" (.record .seccompProfile),
    optional "supplementalGroups" (.list .int64), optional "supplementalGroupsPolicy" .text,
    optional "sysctls" (.list (.record .sysctl)),
    optional "windowsOptions" (.record .windowsSecurityContextOptions)]
  | .toleration => [
    optional "effect" .text, optional "key" .text, optional "operator" .text,
    optional "tolerationSeconds" .int64, optional "value" .text]
  | .topologySpreadConstraint => [
    optional "labelSelector" (.record .labelSelector), optional "matchLabelKeys" (.list .text),
    required "maxSkew" .int32, optional "minDomains" .int32, optional "nodeAffinityPolicy" .text,
    optional "nodeTaintsPolicy" .text, required "topologyKey" .text,
    required "whenUnsatisfiable" .text]
  | .volume => [
    optional "awsElasticBlockStore" (.record .awsElasticBlockStoreVolumeSource),
    optional "azureDisk" (.record .azureDiskVolumeSource),
    optional "azureFile" (.record .azureFileVolumeSource),
    optional "cephfs" (.record .cephFSVolumeSource),
    optional "cinder" (.record .cinderVolumeSource),
    optional "configMap" (.record .configMapVolumeSource),
    optional "csi" (.record .csiVolumeSource),
    optional "downwardAPI" (.record .downwardAPIVolumeSource),
    optional "emptyDir" (.record .emptyDirVolumeSource),
    optional "ephemeral" (.record .ephemeralVolumeSource), optional "fc" (.record .fcVolumeSource),
    optional "flexVolume" (.record .flexVolumeSource),
    optional "flocker" (.record .flockerVolumeSource),
    optional "gcePersistentDisk" (.record .gcePersistentDiskVolumeSource),
    optional "gitRepo" (.record .gitRepoVolumeSource),
    optional "glusterfs" (.record .glusterfsVolumeSource),
    optional "hostPath" (.record .hostPathVolumeSource),
    optional "image" (.record .imageVolumeSource), optional "iscsi" (.record .iscsiVolumeSource),
    required "name" .text, optional "nfs" (.record .nfsVolumeSource),
    optional "persistentVolumeClaim" (.record .persistentVolumeClaimVolumeSource),
    optional "photonPersistentDisk" (.record .photonPersistentDiskVolumeSource),
    optional "portworxVolume" (.record .portworxVolumeSource),
    optional "projected" (.record .projectedVolumeSource),
    optional "quobyte" (.record .quobyteVolumeSource), optional "rbd" (.record .rbdVolumeSource),
    optional "scaleIO" (.record .scaleIOVolumeSource),
    optional "secret" (.record .secretVolumeSource),
    optional "storageos" (.record .storageOSVolumeSource),
    optional "vsphereVolume" (.record .vsphereVirtualDiskVolumeSource)]
  | .podCondition => [
    optional "lastProbeTime" .time, optional "lastTransitionTime" .time, optional "message" .text,
    optional "reason" .text, required "status" .text, required "type" .text]
  | .containerStatus => [
    optional "allocatedResources" (.map .quantity),
    optional "allocatedResourcesStatus" (.list (.record .resourceStatus)),
    optional "containerID" .text, required "image" .text, required "imageID" .text,
    optional "lastState" (.record .containerState), required "name" .text, required "ready" .bool,
    optional "resources" (.record .resourceRequirements), required "restartCount" .int32,
    optional "started" .bool, optional "state" (.record .containerState),
    optional "user" (.record .containerUser),
    optional "volumeMounts" (.list (.record .volumeMountStatus))]
  | .hostIP => [required "ip" .text]
  | .podIP => [required "ip" .text]
  | .podResourceClaimStatus => [required "name" .text, optional "resourceClaimName" .text]
  | .statusCause => [optional "field" .text, optional "message" .text, optional "reason" .text]
  | .nodeAffinity => [

    optional "preferredDuringSchedulingIgnoredDuringExecution"
      (.list (.record .preferredSchedulingTerm)),
    optional "requiredDuringSchedulingIgnoredDuringExecution" (.record .nodeSelector)]
  | .podAffinity => [

    optional "preferredDuringSchedulingIgnoredDuringExecution"
      (.list (.record .weightedPodAffinityTerm)),
    optional "requiredDuringSchedulingIgnoredDuringExecution" (.list (.record .podAffinityTerm))]
  | .podAntiAffinity => [

    optional "preferredDuringSchedulingIgnoredDuringExecution"
      (.list (.record .weightedPodAffinityTerm)),
    optional "requiredDuringSchedulingIgnoredDuringExecution" (.list (.record .podAffinityTerm))]
  | .envVar => [
    required "name" .text, optional "value" .text, optional "valueFrom" (.record .envVarSource)]
  | .envFromSource => [
    optional "configMapRef" (.record .configMapEnvSource), optional "prefix" .text,
    optional "secretRef" (.record .secretEnvSource)]
  | .lifecycle => [
    optional "postStart" (.record .lifecycleHandler),
    optional "preStop" (.record .lifecycleHandler)]
  | .probe => [
    optional "exec" (.record .execAction), optional "failureThreshold" .int32,
    optional "grpc" (.record .grpcAction), optional "httpGet" (.record .httpGetAction),
    optional "initialDelaySeconds" .int32, optional "periodSeconds" .int32,
    optional "successThreshold" .int32, optional "tcpSocket" (.record .tcpSocketAction),
    optional "terminationGracePeriodSeconds" .int64, optional "timeoutSeconds" .int32]
  | .containerPort => [
    required "containerPort" .int32, optional "hostIP" .text, optional "hostPort" .int32,
    optional "name" .text, optional "protocol" .text]
  | .containerResizePolicy => [required "resourceName" .text, required "restartPolicy" .text]
  | .securityContext => [
    optional "allowPrivilegeEscalation" .bool,
    optional "appArmorProfile" (.record .appArmorProfile),
    optional "capabilities" (.record .capabilities), optional "privileged" .bool,
    optional "procMount" .text, optional "readOnlyRootFilesystem" .bool,
    optional "runAsGroup" .int64, optional "runAsNonRoot" .bool, optional "runAsUser" .int64,
    optional "seLinuxOptions" (.record .seLinuxOptions),
    optional "seccompProfile" (.record .seccompProfile),
    optional "windowsOptions" (.record .windowsSecurityContextOptions)]
  | .volumeDevice => [required "devicePath" .text, required "name" .text]
  | .volumeMount => [
    required "mountPath" .text, optional "mountPropagation" .text, required "name" .text,
    optional "readOnly" .bool, optional "recursiveReadOnly" .text, optional "subPath" .text,
    optional "subPathExpr" .text]
  | .podDNSConfigOption => [optional "name" .text, optional "value" .text]
  | .resourceClaim => [required "name" .text, optional "request" .text]
  | .appArmorProfile => [optional "localhostProfile" .text, required "type" .text]
  | .seLinuxOptions => [
    optional "level" .text, optional "role" .text, optional "type" .text, optional "user" .text]
  | .seccompProfile => [optional "localhostProfile" .text, required "type" .text]
  | .sysctl => [required "name" .text, required "value" .text]
  | .windowsSecurityContextOptions => [
    optional "gmsaCredentialSpec" .text, optional "gmsaCredentialSpecName" .text,
    optional "hostProcess" .bool, optional "runAsUserName" .text]
  | .labelSelector => [
    optional "matchExpressions" (.list (.record .labelSelectorRequirement)),
    optional "matchLabels" (.map .text)]
  | .awsElasticBlockStoreVolumeSource => [
    optional "fsType" .text, optional "partition" .int32, optional "readOnly" .bool,
    required "volumeID" .text]
  | .azureDiskVolumeSource => [
    optional "cachingMode" .text, required "diskName" .text, required "diskURI" .text,
    optional "fsType" .text, optional "kind" .text, optional "readOnly" .bool]
  | .azureFileVolumeSource => [
    optional "readOnly" .bool, required "secretName" .text, required "shareName" .text]
  | .cephFSVolumeSource => [
    required "monitors" (.list .text), optional "path" .text, optional "readOnly" .bool,
    optional "secretFile" .text, optional "secretRef" (.record .localObjectReference),
    optional "user" .text]
  | .cinderVolumeSource => [
    optional "fsType" .text, optional "readOnly" .bool,
    optional "secretRef" (.record .localObjectReference), required "volumeID" .text]
  | .configMapVolumeSource => [
    optional "defaultMode" .int32, optional "items" (.list (.record .keyToPath)),
    required "name" .text, optional "optional" .bool]
  | .csiVolumeSource => [
    required "driver" .text, optional "fsType" .text,
    optional "nodePublishSecretRef" (.record .localObjectReference), optional "readOnly" .bool,
    optional "volumeAttributes" (.map .text)]
  | .downwardAPIVolumeSource => [
    optional "defaultMode" .int32, optional "items" (.list (.record .downwardAPIVolumeFile))]
  | .emptyDirVolumeSource => [optional "medium" .text, optional "sizeLimit" .quantity]
  | .ephemeralVolumeSource => [
    optional "volumeClaimTemplate" (.record .persistentVolumeClaimTemplate)]
  | .fcVolumeSource => [
    optional "fsType" .text, optional "lun" .int32, optional "readOnly" .bool,
    optional "targetWWNs" (.list .text), optional "wwids" (.list .text)]
  | .flexVolumeSource => [
    required "driver" .text, optional "fsType" .text, optional "options" (.map .text),
    optional "readOnly" .bool, optional "secretRef" (.record .localObjectReference)]
  | .flockerVolumeSource => [optional "datasetName" .text, optional "datasetUUID" .text]
  | .gcePersistentDiskVolumeSource => [
    optional "fsType" .text, optional "partition" .int32, required "pdName" .text,
    optional "readOnly" .bool]
  | .gitRepoVolumeSource => [
    optional "directory" .text, required "repository" .text, optional "revision" .text]
  | .glusterfsVolumeSource => [
    required "endpoints" .text, required "path" .text, optional "readOnly" .bool]
  | .hostPathVolumeSource => [required "path" .text, optional "type" .text]
  | .imageVolumeSource => [optional "pullPolicy" .text, optional "reference" .text]
  | .iscsiVolumeSource => [
    optional "chapAuthDiscovery" .bool, optional "chapAuthSession" .bool, optional "fsType" .text,
    optional "initiatorName" .text, required "iqn" .text, optional "iscsiInterface" .text,
    required "lun" .int32, optional "portals" (.list .text), optional "readOnly" .bool,
    optional "secretRef" (.record .localObjectReference), required "targetPortal" .text]
  | .nfsVolumeSource => [required "path" .text, optional "readOnly" .bool, required "server" .text]
  | .persistentVolumeClaimVolumeSource => [required "claimName" .text, optional "readOnly" .bool]
  | .photonPersistentDiskVolumeSource => [optional "fsType" .text, required "pdID" .text]
  | .portworxVolumeSource => [
    optional "fsType" .text, optional "readOnly" .bool, required "volumeID" .text]
  | .projectedVolumeSource => [
    optional "defaultMode" .int32, optional "sources" (.list (.record .volumeProjection))]
  | .quobyteVolumeSource => [
    optional "group" .text, optional "readOnly" .bool, required "registry" .text,
    optional "tenant" .text, optional "user" .text, required "volume" .text]
  | .rbdVolumeSource => [
    optional "fsType" .text, required "image" .text, optional "keyring" .text,
    required "monitors" (.list .text), optional "pool" .text, optional "readOnly" .bool,
    optional "secretRef" (.record .localObjectReference), optional "user" .text]
  | .scaleIOVolumeSource => [
    optional "fsType" .text, required "gateway" .text, optional "protectionDomain" .text,
    optional "readOnly" .bool, required "secretRef" (.record .localObjectReference),
    optional "sslEnabled" .bool, optional "storageMode" .text, optional "storagePool" .text,
    required "system" .text, optional "volumeName" .text]
  | .secretVolumeSource => [
    optional "defaultMode" .int32, optional "items" (.list (.record .keyToPath)),
    optional "optional" .bool, optional "secretName" .text]
  | .storageOSVolumeSource => [
    optional "fsType" .text, optional "readOnly" .bool,
    optional "secretRef" (.record .localObjectReference), optional "volumeName" .text,
    optional "volumeNamespace" .text]
  | .vsphereVirtualDiskVolumeSource => [
    optional "fsType" .text, optional "storagePolicyID" .text, optional "storagePolicyName" .text,
    required "volumePath" .text]
  | .resourceStatus => [
    required "name" .text, optional "resources" (.list (.record .resourceHealth))]
  | .containerState => [
    optional "running" (.record .containerStateRunning),
    optional "terminated" (.record .containerStateTerminated),
    optional "waiting" (.record .containerStateWaiting)]
  | .containerUser => [optional "linux" (.record .linuxContainerUser)]
  | .volumeMountStatus => [
    required "mountPath" .text, required "name" .text, optional "readOnly" .bool,
    optional "recursiveReadOnly" .text]
  | .preferredSchedulingTerm => [
    required "preference" (.record .nodeSelectorTerm), required "weight" .int32]
  | .nodeSelector => [required "nodeSelectorTerms" (.list (.record .nodeSelectorTerm))]
  | .weightedPodAffinityTerm => [
    required "podAffinityTerm" (.record .podAffinityTerm), required "weight" .int32]
  | .podAffinityTerm => [
    optional "labelSelector" (.record .labelSelector), optional "matchLabelKeys" (.list .text),
    optional "mismatchLabelKeys" (.list .text),
    optional "namespaceSelector" (.record .labelSelector), optional "namespaces" (.list .text),
    required "topologyKey" .text]
  | .envVarSource => [
    optional "configMapKeyRef" (.record .configMapKeySelector),
    optional "fieldRef" (.record .objectFieldSelector),
    optional "resourceFieldRef" (.record .resourceFieldSelector),
    optional "secretKeyRef" (.record .secretKeySelector)]
  | .configMapEnvSource => [required "name" .text, optional "optional" .bool]
  | .secretEnvSource => [required "name" .text, optional "optional" .bool]
  | .lifecycleHandler => [
    optional "exec" (.record .execAction), optional "httpGet" (.record .httpGetAction),
    optional "sleep" (.record .sleepAction), optional "tcpSocket" (.record .tcpSocketAction)]
  | .execAction => [optional "command" (.list .text)]
  | .grpcAction => [required "port" .int32, optional "service" .text]
  | .httpGetAction => [
    optional "host" .text, optional "httpHeaders" (.list (.record .httpHeader)),
    optional "path" .text, required "port" .intOrText, optional "scheme" .text]
  | .tcpSocketAction => [optional "host" .text, required "port" .intOrText]
  | .capabilities => [optional "add" (.list .text), optional "drop" (.list .text)]
  | .labelSelectorRequirement => [
    required "key" .text, required "operator" .text, optional "values" (.list .text)]
  | .keyToPath => [required "key" .text, optional "mode" .int32, required "path" .text]
  | .downwardAPIVolumeFile => [
    optional "fieldRef" (.record .objectFieldSelector), optional "mode" .int32,
    required "path" .text, optional "resourceFieldRef" (.record .resourceFieldSelector)]
  | .persistentVolumeClaimTemplate => [
    optional "metadata" (.record .objectMeta), required "spec" (.record .persistentVolumeClaimSpec)]
  | .volumeProjection => [
    optional "clusterTrustBundle" (.record .clusterTrustBundleProjection),
    optional "configMap" (.record .configMapProjection),
    optional "downwardAPI" (.record .downwardAPIProjection),
    optional "secret" (.record .secretProjection),
    optional "serviceAccountToken" (.record .serviceAccountTokenProjection)]
  | .resourceHealth => [optional "health" .text, required "resourceID" .text]
  | .containerStateRunning => [optional "startedAt" .time]
  | .containerStateTerminated => [
    optional "containerID" .text, required "exitCode" .int32, optional "finishedAt" .time,
    optional "message" .text, optional "reason" .text, optional "signal" .int32,
    optional "startedAt" .time]
  | .containerStateWaiting => [optional "message" .text, optional "reason" .text]
  | .linuxContainerUser => [
    required "gid" .int64, optional "supplementalGroups" (.list .int64), required "uid" .int64]
  | .nodeSelectorTerm => [
    optional "matchExpressions" (.list (.record .nodeSelectorRequirement)),
    optional "matchFields" (.list (.record .nodeSelectorRequirement))]
  | .configMapKeySelector => [
    required "key" .text, required "name" .text, optional "optional" .bool]
  | .objectFieldSelector => [optional "apiVersion" .text, required "fieldPath" .text]
  | .resourceFieldSelector => [
    optional "containerName" .text, optional "divisor" .quantity, required "resource" .text]
  | .secretKeySelector => [required "key" .text, required "name" .text, optional "optional" .bool]
  | .sleepAction => [required "seconds" .int64]
  | .httpHeader => [required "name" .text, required "value" .text]
  | .persistentVolumeClaimSpec => [
    optional "accessModes" (.list .text),
    optional "dataSource" (.record .typedLocalObjectReference),
    optional "dataSourceRef" (.record .typedObjectReference),
    optional "resources" (.record .volumeResourceRequirements),
    optional "selector" (.record .labelSelector), optional "storageClassName" .text,
    optional "volumeAttributesClassName" .text, optional "volumeMode" .text,
    optional "volumeName" .text]
  | .clusterTrustBundleProjection => [
    optional "labelSelector" (.record .labelSelector), optional "name" .text,
    optional "optional" .bool, required "path" .text, optional "signerName" .text]
  | .configMapProjection => [
    optional "items" (.list (.record .keyToPath)), required "name" .text, optional "optional" .bool]
  | .downwardAPIProjection => [optional "items" (.list (.record .downwardAPIVolumeFile))]
  | .secretProjection => [
    optional "items" (.list (.record .keyToPath)), required "name" .text, optional "optional" .bool]
  | .serviceAccountTokenProjection => [
    optional "audience" .text, optional "expirationSeconds" .int64, required "path" .text]
  | .nodeSelectorRequirement => [
    required "key" .text, required "operator" .text, optional "values" (.list .text)]
  | .typedLocalObjectReference => [
    optional "apiGroup" .text, required "kind" .text, required "name" .text]
  | .typedObjectReference => [
    optional "apiGroup" .text, required "kind" .text, required "name" .text,
    optional "namespace" .text]
  | .volumeResourceRequirements => [
    optional "limits" (.map .quantity), optional "requests" (.map .quantity)]

/-- The field of a kind of record with a name. -/
def field? (kind : Kind) (name : String) : Option Field := kind.fields.find? (·.name == name)

end Kind

end SidecarAdmission.Resource
