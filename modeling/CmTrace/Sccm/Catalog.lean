import CmTrace.Text.Number
import CmTrace.Time.Calendar

/-!
# The catalog of client sources

A file name is taken apart into the source it is of and the rotation it is.  What
is written here of the catalog is what it has for the client's role.
-/

namespace CmTrace
namespace Sccm

open Text Time

structure SccmEvidenceRef where
  artifactId : Text
  entryId : Text
  lineStart : Option Nat := none
  lineEnd : Option Nat := none
  deriving DecidableEq, Repr

/-! ## Rotations -/

/-- The value of a rotation that is not known, which may be any JSON. -/
inductive RotationValue where
  | string (value : Text)
  | other (json : Text)
  deriving DecidableEq, Repr

structure SccmUnknownRotation where
  kind : Text
  value : Option RotationValue
  deriving DecidableEq, Repr

inductive SccmRotation where
  | current
  | loUnderscore
  | numbered (number : Nat)
  | timestamped (timestamp : Text)
  | unknown (rotation : SccmUnknownRotation)
  deriving DecidableEq, Repr

def isCanonicalRotationNumber (value : Nat) : Bool := value != 0

def parseCanonicalRotationNumber (value : Text) : Option Nat :=
  if value = [] ∨ value.head? = some '0' ∨ value.all isAsciiDigit = false then none
  else (parseUnsigned 10 (2 ^ 32 - 1) value).filter isCanonicalRotationNumber

def digitsValue (s : Text) : Nat := s.foldl (fun acc c => acc * 10 + (c.toNat - 48)) 0

def isCanonicalRotationTimestamp (value : Text) : Bool :=
  let date := value.take 8
  let time := value.drop 9
  decide (value.length = 15) && date.all isAsciiDigit && (value.drop 8).head? == some '-' &&
    time.all isAsciiDigit &&
    isDate (digitsValue (date.take 4)) (digitsValue ((date.drop 4).take 2))
      (digitsValue (date.drop 6)) &&
    decide (digitsValue (time.take 2) < 24) && decide (digitsValue ((time.drop 2).take 2) < 60) &&
    decide (digitsValue (time.drop 4) < 60)

/-- A rotation can be written, which is when it is canonical. -/
def SccmRotation.serializes : SccmRotation → Bool
  | .numbered value => isCanonicalRotationNumber value
  | .timestamped value => isCanonicalRotationTimestamp value
  | _ => true

/-! ## Sources -/

inductive SccmArtifactFamily where
  | clientSetup
  | clientHealth
  | clientIdentity
  | clientLocation
  | clientPolicy
  | clientContent
  | clientApplication
  | clientUpdates
  | clientTaskSequence
  | clientInventory
  | clientCompliance
  | clientMetering
  | unknown
  deriving DecidableEq, Repr

structure CatalogSpec where
  basename : Text
  logicalName : Text
  family : SccmArtifactFamily

def sourceCatalog : List CatalogSpec := [
  ⟨"ccmsetup".toList, "ccmSetup".toList, .clientSetup⟩,
  ⟨"client.msi".toList, "clientMsi".toList, .clientSetup⟩,
  ⟨"CcmEval".toList, "ccmEval".toList, .clientHealth⟩,
  ⟨"CcmExec".toList, "ccmExec".toList, .clientHealth⟩,
  ⟨"CcmRestart".toList, "ccmRestart".toList, .clientHealth⟩,
  ⟨"ClientIDManagerStartup".toList, "clientIdManagerStartup".toList, .clientIdentity⟩,
  ⟨"ClientLocation".toList, "clientLocation".toList, .clientLocation⟩,
  ⟨"LocationServices".toList, "locationServices".toList, .clientLocation⟩,
  ⟨"CcmMessaging".toList, "ccmMessaging".toList, .clientLocation⟩,
  ⟨"PolicyAgent".toList, "policyAgent".toList, .clientPolicy⟩,
  ⟨"PolicyAgentProvider".toList, "policyAgentProvider".toList, .clientPolicy⟩,
  ⟨"PolicyEvaluator".toList, "policyEvaluator".toList, .clientPolicy⟩,
  ⟨"CIAgent".toList, "ciAgent".toList, .clientPolicy⟩,
  ⟨"CIDownloader".toList, "ciDownloader".toList, .clientPolicy⟩,
  ⟨"StateMessage".toList, "stateMessage".toList, .clientPolicy⟩,
  ⟨"StatusAgent".toList, "statusAgent".toList, .clientPolicy⟩,
  ⟨"Scheduler".toList, "scheduler".toList, .clientPolicy⟩,
  ⟨"CAS".toList, "cas".toList, .clientContent⟩,
  ⟨"ContentTransferManager".toList, "contentTransferManager".toList, .clientContent⟩,
  ⟨"DataTransferService".toList, "dataTransferService".toList, .clientContent⟩,
  ⟨"AppIntentEval".toList, "appIntentEval".toList, .clientApplication⟩,
  ⟨"AppDiscovery".toList, "appDiscovery".toList, .clientApplication⟩,
  ⟨"AppEnforce".toList, "appEnforce".toList, .clientApplication⟩,
  ⟨"ExecMgr".toList, "execMgr".toList, .clientApplication⟩,
  ⟨"ScanAgent".toList, "scanAgent".toList, .clientUpdates⟩,
  ⟨"WUAHandler".toList, "wuaHandler".toList, .clientUpdates⟩,
  ⟨"UpdatesDeployment".toList, "updatesDeployment".toList, .clientUpdates⟩,
  ⟨"UpdatesHandler".toList, "updatesHandler".toList, .clientUpdates⟩,
  ⟨"UpdatesStore".toList, "updatesStore".toList, .clientUpdates⟩,
  ⟨"ServiceWindowManager".toList, "serviceWindowManager".toList, .clientUpdates⟩,
  ⟨"RebootCoordinator".toList, "rebootCoordinator".toList, .clientUpdates⟩,
  ⟨"CBS".toList, "componentBasedServicing".toList, .clientUpdates⟩,
  ⟨"ReportingEvents".toList, "reportingEvents".toList, .clientUpdates⟩,
  ⟨"smsts".toList, "smsts".toList, .clientTaskSequence⟩,
  ⟨"InventoryAgent".toList, "inventoryAgent".toList, .clientInventory⟩,
  ⟨"InventoryProvider".toList, "inventoryProvider".toList, .clientInventory⟩,
  ⟨"InventoryAgentProvider".toList, "inventoryAgentProvider".toList, .clientInventory⟩,
  ⟨"CITaskMgr".toList, "ciTaskMgr".toList, .clientCompliance⟩,
  ⟨"DCMAgent".toList, "dcmAgent".toList, .clientCompliance⟩,
  ⟨"DCMReporting".toList, "dcmReporting".toList, .clientCompliance⟩,
  ⟨"SWMTRReportGen".toList, "swmtrReportGen".toList, .clientMetering⟩]

structure SccmClientSourceMembership where
  basename : Text
  logicalArtifactIds : List Text
  deriving DecidableEq, Repr

def clientSourceMemberships : List SccmClientSourceMembership := [
  ⟨"AppEnforce.log".toList, ["client-app-enforce".toList]⟩,
  ⟨"ExecMgr.log".toList, ["client-app-enforce".toList]⟩,
  ⟨"AppDiscovery.log".toList, ["client-app-intent".toList]⟩,
  ⟨"AppIntentEval.log".toList, ["client-app-intent".toList]⟩,
  ⟨"ccmsetup.log".toList, ["client-ccmsetup".toList]⟩,
  ⟨"client.msi.log".toList, ["client-ccmsetup".toList]⟩,
  ⟨"CAS.log".toList, ["client-content".toList]⟩,
  ⟨"ContentTransferManager.log".toList, ["client-content".toList]⟩,
  ⟨"DataTransferService.log".toList, ["client-content".toList]⟩,
  ⟨"CcmEval.log".toList, ["client-evaluation".toList]⟩,
  ⟨"CcmExec.log".toList, ["client-evaluation".toList]⟩,
  ⟨"CcmRestart.log".toList, ["client-evaluation".toList]⟩,
  ⟨"ClientIDManagerStartup.log".toList, ["client-identity".toList]⟩,
  ⟨"CcmMessaging.log".toList, ["client-location".toList]⟩,
  ⟨"ClientLocation.log".toList, ["client-location".toList]⟩,
  ⟨"LocationServices.log".toList, ["client-location".toList,
    "client-content".toList,
    "client-location-services-shared".toList]⟩,
  ⟨"PolicyAgent.log".toList, ["client-policy-agent".toList]⟩,
  ⟨"PolicyAgentProvider.log".toList, ["client-policy-agent".toList]⟩,
  ⟨"PolicyEvaluator.log".toList, ["client-policy-agent".toList]⟩,
  ⟨"Scheduler.log".toList, ["client-policy-agent".toList]⟩,
  ⟨"CIAgent.log".toList, ["client-policy-state".toList]⟩,
  ⟨"CIDownloader.log".toList, ["client-policy-state".toList]⟩,
  ⟨"StateMessage.log".toList, ["client-policy-state".toList]⟩,
  ⟨"StatusAgent.log".toList, ["client-policy-state".toList]⟩,
  ⟨"ScanAgent.log".toList, ["client-updates".toList]⟩,
  ⟨"UpdatesDeployment.log".toList, ["client-updates".toList]⟩,
  ⟨"UpdatesHandler.log".toList, ["client-updates".toList]⟩,
  ⟨"UpdatesStore.log".toList, ["client-updates".toList]⟩,
  ⟨"WUAHandler.log".toList, ["client-updates".toList]⟩,
  ⟨"ServiceWindowManager.log".toList, ["client-maintenance-window".toList]⟩,
  ⟨"RebootCoordinator.log".toList, ["client-reboot".toList]⟩,
  ⟨"CBS.log".toList, ["client-windows-update-supplemental".toList]⟩,
  ⟨"ReportingEvents.log".toList, ["client-windows-update-supplemental".toList]⟩,
  ⟨"smsts.log".toList, ["client-task-sequence-smsts".toList]⟩,
  ⟨"InventoryAgent.log".toList, ["client-inventory".toList]⟩,
  ⟨"InventoryProvider.log".toList, ["client-inventory".toList]⟩,
  ⟨"InventoryAgentProvider.log".toList, ["client-inventory".toList]⟩,
  ⟨"CITaskMgr.log".toList, ["client-compliance".toList]⟩,
  ⟨"DCMAgent.log".toList, ["client-compliance".toList]⟩,
  ⟨"DCMReporting.log".toList, ["client-compliance".toList]⟩,
  ⟨"SWMTRReportGen.log".toList, ["client-metering".toList]⟩]

/-! ## Names -/

def lastIndexOf (sep : Text) : Text → Option Nat
  | [] => none
  | c :: rest =>
    match lastIndexOf sep rest with
    | some i => some (i + 1)
    | none => if sep.isPrefixOf (c :: rest) then some 0 else none

structure ParsedArtifactName where
  basename : Text
  rotation : SccmRotation
  rotationSupported : Bool
  deriving DecidableEq, Repr

def unknownFilenameSuffix (rawSuffix : Text) : SccmRotation :=
  .unknown ⟨"filenameSuffix".toList, some (.string rawSuffix)⟩

/-- The rotation that a suffix of a file name says. -/
def suffixRotation (suffix : Text) : Option SccmRotation :=
  match parseCanonicalRotationNumber suffix with
  | some number => some (.numbered number)
  | none => if isCanonicalRotationTimestamp suffix then some (.timestamped suffix) else none

def ParsedArtifactName.fromName (name : Text) : ParsedArtifactName :=
  let lowercase := toAsciiLowercase name
  if ".log".toList.isSuffixOf lowercase then ⟨name.take (name.length - 4), .current, true⟩
  else
    match lastIndexOf ".log.".toList lowercase with
    | some separator =>
      match suffixRotation (name.drop (separator + 5)) with
      | some rotation => ⟨name.take separator, rotation, true⟩
      | none => ⟨name.take separator, unknownFilenameSuffix (name.drop (separator + 4)), false⟩
    | none =>
      if ".lo_".toList.isSuffixOf lowercase then ⟨name.take (name.length - 4), .loUnderscore, true⟩
      else
        match lastIndexOf ['.'] name with
        | some separator => ⟨name.take separator, unknownFilenameSuffix (name.drop separator), false⟩
        | none => ⟨name, unknownFilenameSuffix [], false⟩

structure SccmSourceCatalogEntry where
  basename : Text
  family : SccmArtifactFamily
  rotation : SccmRotation
  usesCcmRecords : Bool
  supportedForDiagnosis : Bool
  deriving DecidableEq, Repr

def catalogEntryUsesCcmRecords (entry : CatalogSpec) : Bool :=
  !(["clientMsi".toList, "reportingEvents".toList, "componentBasedServicing".toList].contains
    entry.logicalName)

/-- What the catalog has of a file name, for the client's role. -/
def classifyArtifactName (name : Text) : SccmSourceCatalogEntry :=
  let parsed := ParsedArtifactName.fromName name
  match sourceCatalog.find? fun entry => eqIgnoreAsciiCase entry.basename parsed.basename with
  | some entry =>
    { basename := entry.basename ++ ".log".toList
      family := entry.family
      rotation := parsed.rotation
      usesCcmRecords := catalogEntryUsesCcmRecords entry
      supportedForDiagnosis := parsed.rotationSupported }
  | none =>
    { basename := parsed.basename ++ ".log".toList
      family := .unknown
      rotation := parsed.rotation
      usesCcmRecords := false
      supportedForDiagnosis := false }

end Sccm
end CmTrace
