import CmTrace.Text.Json
import CmTrace.Timeline.Merge

/-!
# Rows of a timeline as they are sent

Each record is written with its fields in the order of their declaration.
-/

namespace CmTrace
namespace EventLog

open Text Timeline

namespace Wire

def severity : TimelineSeverity → Text
  | .verbose  => "verbose".toList
  | .info     => "info".toList
  | .warning  => "warning".toList
  | .error    => "error".toList
  | .critical => "critical".toList

/-- A field that is left out when there is nothing in it. -/
def optional (name : String) : Option Text → List (String × Text)
  | none => []
  | some value => [(name, jsonString value)]

def texts (values : List Text) : Text := jsonArray (values.map jsonString)

def origin : Timeline.TimelineOrigin → Text
  | .log o => jsonObject [
      ("kind", jsonString "log".toList), ("file", jsonString o.file),
      ("component", jsonOption jsonString o.component), ("line", decimal o.line),
      ("source", jsonString o.source), ("machine", jsonOption jsonString o.machine),
      ("bundle", jsonOption jsonString o.bundle), ("recordId", decimal o.recordId)]
  | .event o => jsonObject ([
      ("kind", jsonString "event".toList), ("stableId", jsonString o.stableId),
      ("source", jsonString o.source), ("machine", jsonOption jsonString o.machine),
      ("bundle", jsonOption jsonString o.bundle), ("channel", jsonString o.channel),
      ("provider", jsonString o.provider), ("processId", jsonOption decimal o.processId)] ++
      optional "activityId" o.activityId ++ optional "relatedActivityId" o.relatedActivityId ++
      optional "sessionId" o.sessionId ++ optional "deviceId" o.deviceId ++
      optional "userId" o.userId ++ optional "processStartTime" o.processStartTime ++
      (if o.identityConflicts.isEmpty then []
        else [("identityConflicts", texts o.identityConflicts)]) ++
      [("eventId", decimal o.eventId), ("recordId", decimal o.recordId)] ++
      optional "recordIdText" o.recordIdText)

def item (i : Timeline.TimelineItem) : Text :=
  jsonObject [("timestampMs", jsonInt i.timestampMs), ("severity", jsonString (severity i.severity)),
    ("message", jsonString i.message), ("origin", origin i.origin)]

def unplacedReason : UnplacedReason → Text
  | .missingTimestamp => "missingTimestamp".toList

def unplaced (i : UnplacedItem) : Text :=
  jsonObject [("origin", origin i.origin), ("reason", jsonString (unplacedReason i.reason))]

def key (k : Timeline.TimelineCorrelationKey) : Text :=
  jsonObject [("kind", jsonString k.kind.label), ("value", jsonString k.value)]

def strength : TimelineCorrelationStrength → Text
  | .exact     => "exact".toList
  | .candidate => "candidate".toList
  | .ambiguous => "ambiguous".toList

def confidence : TimelineCorrelationConfidence → Text
  | .high    => "high".toList
  | .low     => "low".toList
  | .unknown => "unknown".toList

def evidence (e : TimelineCorrelationEvidence) : Text :=
  jsonObject [("originId", jsonString e.originId), ("field", jsonString e.field),
    ("value", jsonString e.value)]

def coverageGap (gap : Timeline.TimelineCoverageGap) : Text :=
  jsonObject [("source", jsonString gap.source), ("reason", jsonString gap.reason)]

def coverage : Option Timeline.TimelineCoverageGap → Text
  | none => jsonObject [("state", jsonString "covered".toList)]
  | some gap => jsonObject [("state", jsonString "gap".toList), ("gap", coverageGap gap)]

def edge (e : Timeline.TimelineCorrelationEdge) : Text :=
  jsonObject [("id", jsonString e.id), ("fromId", jsonString e.fromId),
    ("toId", jsonOption jsonString e.toId), ("key", key e.key),
    ("strength", jsonString (strength e.strength)),
    ("confidence", jsonString (confidence e.confidence)), ("candidateIds", texts e.candidateIds),
    ("evidence", jsonArray (e.evidence.map evidence)), ("coverage", coverage e.coverage)]

end Wire

end EventLog
end CmTrace
