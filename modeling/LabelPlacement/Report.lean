import LabelPlacement.Decimal.Fixed
import LabelPlacement.Json.Names
import LabelPlacement.Map
import LabelPlacement.Scalar.Binary64
/-!
The report on a labelled map: the result in numbers, and a line or more for every request.
-/

namespace LabelPlacement.Report

def pointText (point : Point Float) : String :=
  "(" ++ Decimal.renderPlaces 2 point.x ++ ", " ++ Decimal.renderPlaces 2 point.y ++ ")"

def summaryLines (summary : Summary) : List String :=
  let line (name : String) (count : Nat) : String := "  - " ++ name ++ " = " ++ toString count
  ["地图注记结果",
    line "请求总数" summary.total,
    line "直接放置" summary.placed,
    line "引线放置" summary.placedWithLeader,
    line "强制放置" summary.forced,
    line "已抑制" summary.suppressed,
    line "待放引线" summary.deferred,
    line "未放置" summary.unplaced,
    line "执行错误" summary.errors] ++
  (if summary.interrupted then ["运行被中断，剩余请求未处理。"] else []) ++
  (if summary.timedOut then ["运行超时，剩余请求未处理。"] else [])

def heading (request : Request Float) : String :=
  "  - #" ++ toString request.id ++ " [" ++ request.labelClass ++ "] 状态=" ++
    Named.name request.status

def placementLines (request : Request Float) (placement : Placement Float) : List String :=
  let main :=
    heading request ++ ", 中心=" ++ pointText placement.bounds.center ++
      ", 角度=" ++ Decimal.renderPlaces 1 (Trigonometric.toDegrees placement.angle) ++ "°" ++
      ", 字号=" ++ Decimal.renderPlaces 2 placement.fontSize ++
      ", 文字=" ++ " / ".intercalate placement.lines
  let hidden :=
    if placement.hidden.isEmpty then []
    else ["      隐藏元素：" ++ ", ".intercalate (placement.hidden.map Element.render)]
  let leader :=
    match placement.leader with
    | none => []
    | some leader =>
      ["      引线：" ++ pointText leader.start ++ " → " ++ pointText leader.finish]
  main :: (hidden ++ leader)

def requestLines (request : Request Float) : List String :=
  match request.placement with
  | none => [heading request]
  | some placement => placementLines request placement

def detailLines (map : LabelMap Float) : List String :=
  "注记明细：" :: map.requests.flatMap requestLines

end LabelPlacement.Report
