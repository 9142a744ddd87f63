import LabelPlacement.Json.Value
import LabelPlacement.Settings
/-!
The written forms of settings and of the result of a run in numbers.

Every field is written, whether or not it has its standard value; a time limit that is not set is
null.
-/

namespace LabelPlacement

def PlacementSettings.toJson (settings : PlacementSettings) : Json Float :=
  .object [
    ("point_offset", .number settings.pointOffset),
    ("line_search_step", .number settings.lineSearchStep),
    ("leader_max_length", .number settings.leaderMaxLength),
    ("leader_step", .number settings.leaderStep),
    ("min_font_size", .number settings.minFontSize),
    ("buffer_steps", .integer settings.bufferSteps),
    ("font_steps", .integer settings.fontSteps),
    ("font_reduction_percent", .number settings.fontReductionPercent),
    ("max_stack_lines", .integer settings.maxStackLines)]

def RunSettings.toJson (settings : RunSettings) : Json Float :=
  .object [
    ("time_limit_ms", .ofOption .ofNatural settings.timeLimit),
    ("deferred_leaders", .bool settings.deferredLeaders)]

def Settings.toJson (settings : Settings) : Json Float :=
  .object [
    ("logging", .object [("level", .string settings.logLevel)]),
    ("placement", settings.placement.toJson),
    ("run", settings.run.toJson)]

def Summary.toJson (summary : Summary) : Json Float :=
  .object [
    ("total", .ofNatural summary.total),
    ("placed", .ofNatural summary.placed),
    ("placed_with_leader", .ofNatural summary.placedWithLeader),
    ("forced", .ofNatural summary.forced),
    ("suppressed", .ofNatural summary.suppressed),
    ("deferred", .ofNatural summary.deferred),
    ("unplaced", .ofNatural summary.unplaced),
    ("errors", .ofNatural summary.errors),
    ("interrupted", .bool summary.interrupted),
    ("timed_out", .bool summary.timedOut)]

end LabelPlacement
