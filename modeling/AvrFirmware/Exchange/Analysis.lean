/-
Configurations, verdicts and reports in exchange form.

A configuration is an object, or the list of its values in order; a
report is an object whose fields keep their order.
-/
import AvrFirmware.Exchange.Instruction
import AvrFirmware.Stack.Report

namespace AvrFirmware

namespace Stack

namespace Revisit

/-- The policy in exchange form. -/
def toJson (p : Revisit) : Json :=
  .str p.name

/-- The policy that an exchange form names. -/
def ofJson? (j : Json) : Option Revisit :=
  j.plainCase?.bind ofName?

end Revisit

namespace Config

/-- The configuration in exchange form. -/
def toJson (c : Config) : Json :=
  .obj
    [("entry_point", .nat c.entryPoint), ("max_steps", .nat c.maxSteps),
      ("max_depth", .nat c.maxDepth),
      ("return_address_bytes", .nat c.returnAddressBytes),
      ("revisit", c.revisit.toJson)]

/-- The configuration of its five values. -/
def ofValues? (entry steps depth bytes revisit : Json) : Option Config :=
  Config.mk <$> entry.nat? 0xFFFFFFFF <*> steps.nat? 0xFFFFFFFFFFFFFFFF
    <*> depth.nat? 0xFFFFFFFFFFFFFFFF <*> bytes.nat? 0xFF
    <*> Revisit.ofJson? revisit

/-- The configuration of an exchange form. -/
def ofJson? : Json → Option Config
  | .obj fs =>
      match fs.lookup "entry_point", fs.lookup "max_steps",
        fs.lookup "max_depth", fs.lookup "return_address_bytes",
        fs.lookup "revisit" with
      | some entry, some steps, some depth, some bytes, some revisit =>
          ofValues? entry steps depth bytes revisit
      | _, _, _, _, _ => none
  | .arr [entry, steps, depth, bytes, revisit] =>
      ofValues? entry steps depth bytes revisit
  | _ => none

end Config

namespace Usage

/-- The usage in exchange form. -/
def toJson : Usage → Json
  | bounded n => .tagged "bounded" (.nat n)
  | unbounded => .str "unbounded"

/-- The usage of an exchange form. -/
def ofJson? (j : Json) : Option Usage :=
  match j.plainCase?, j.valueCase? with
  | some "unbounded", _ => some unbounded
  | _, some ("bounded", v) => (v.nat? 0xFFFFFFFF).map bounded
  | _, _ => none

end Usage

namespace Reason

/-- The reason in exchange form. -/
def toJson : Reason → Json
  | growingCycle pc => .obj [("kind", .str "growing_cycle"), ("pc", .nat pc)]
  | higherRevisit pc => .obj [("kind", .str "higher_revisit"), ("pc", .nat pc)]
  | stepBudget limit =>
      .obj [("kind", .str "step_budget"), ("limit", .nat limit)]
  | depthBudget limit =>
      .obj [("kind", .str "depth_budget"), ("limit", .nat limit)]

end Reason

namespace Report

/-- The report in exchange form. -/
def toJson (r : Report) : Json :=
  .obj [("usage", r.usage.toJson), ("steps", .nat r.steps),
      ("states", .nat r.states),
    ("gaps", .arr (r.gaps.map fun gap =>
      .obj [("pc", .nat gap.1), ("instruction", gap.2.toJson)])),
    ("underflows", .arr (r.underflows.map .nat)),
    ("unbounded", match r.unbounded with
      | some reason => reason.toJson
      | none => .null)]

end Report

end Stack

end AvrFirmware
