import Gopherd.Go.Float
import Gopherd.Go.Strings
import Gopherd.Lib.Except
import Gopherd.Lib.Regex

/-!
`memory.Eval` and `cpu.Eval`: a share of the memory or of the processors that
the machine has, less a fixed amount.
-/

namespace Gopherd.Sys

open Go Regex

inductive ExprError where
  | invalid (expr : String)
  | percentage (expr : String)
  | overflow (expr : String)
  | notPositive (expr : String)
  deriving DecidableEq

def number : Regex :=
  .seq (plus digit) (opt (.seq (literal ['.']) (plus digit)))

def unit : Regex :=
  .alt (literal "MB".toList) (.alt (literal "MiB".toList)
    (.alt (literal "GB".toList) (literal "GiB".toList)))

def groupText (s : List Char) (m : Match) (index : Nat) : List Char :=
  match m.group index with
  | some (first, last) => (s.take last).drop first
  | none => []

/-- `exprRe` of the memory package: `66%`, `100% - 200MB` or `512MB`. -/
def memoryRe : Regex :=
  all [.start, many blank,
    .alt
      (all [.group 1 number, many blank, literal ['%'], many blank,
        opt (all [literal ['-'], many blank, .group 2 number, many blank, .group 3 unit]),
        many blank])
      (all [.group 4 number, many blank, .group 5 unit]),
    many blank, .stop]

def toMiB (expr : String) (value : Rat) (unit : List Char) : Except ExprError Int :=
  let mebibytes : Float64 :=
    if unit = "MB".toList then
      ((Float64.finite value).apply (· * 1000000)).apply (· / 1048576)
    else if unit = "GB".toList then
      ((Float64.finite value).apply (· * 1000000000)).apply (· / 1048576)
    else if unit = "GiB".toList then (Float64.finite value).apply (· * 1024)
    else .finite value
  match mebibytes with
  | .finite value =>
    if 9223372036854775808 < (roundAway value : Rat) then .error (.overflow expr)
    else .ok (toInt64 (roundAway value))
  | _ => .error (.overflow expr)

def evalAbsolute (expr : String) (text unit : List Char) : Except ExprError Int :=
  match parseDecimal text with
  | none => .error (.invalid expr)
  | some value => do
      let mib ← toMiB expr value unit
      if mib ≤ 0 then .error (.notPositive expr) else pure mib

def evalShare (expr : String) (totalMiB : Int) (percent less unit : List Char) :
    Except ExprError Int :=
  match parseDecimal percent with
  | none => .error (.invalid expr)
  | some pct =>
    if pct ≤ 0 ∨ 100 < pct then .error (.percentage expr)
    else
      match ((roundFloat64 totalMiB).apply (· * pct)).apply (· / 100) with
      | .finite share => do
          if 9223372036854775808 < share then .error (.overflow expr)
          let sub ←
            if less = [] then pure 0
            else
              match parseDecimal less with
              | none => .error (.invalid expr)
              | some value => toMiB expr value unit
          let result := addInt (toInt64 share) (-sub)
          if result ≤ 0 then .error (.notPositive expr) else pure result
      | _ => .error (.overflow expr)

/-- `memory.Eval`. -/
def evalMemory (expr : String) (totalMiB : Int) : Except ExprError Int :=
  let s := expr.toList
  match memoryRe.find 0 s with
  | none => .error (.invalid expr)
  | some m =>
    if groupText s m 4 ≠ [] then evalAbsolute expr (groupText s m 4) (groupText s m 5)
    else evalShare expr totalMiB (groupText s m 1) (groupText s m 2) (groupText s m 3)

/-- `exprRe` of the cpu package: `50%` or `50% - 1`. -/
def cpuExprRe : Regex :=
  all [.start, many blank, .group 1 number, many blank, literal ['%'], many blank,
    opt (all [literal ['-'], many blank, .group 2 (plus digit), many blank]),
    many blank, .stop]

/-- The package's own `trimSpace`, which only knows the space itself. -/
def trimBlanks (s : List Char) : List Char :=
  ((s.dropWhile (· = ' ')).reverse.dropWhile (· = ' ')).reverse

def evalCpu (expr : String) (totalCPUs : Int) : Except ExprError Int :=
  let s := trimBlanks expr.toList
  let expr := String.ofList s
  if s = [] then .ok (max 1 totalCPUs)
  else
    match cpuExprRe.find 0 s with
    | none => .error (.invalid expr)
    | some m =>
      match parseDecimal (groupText s m 1) with
      | none => .error (.invalid expr)
      | some pct =>
        if pct ≤ 0 ∨ 100 < pct then .error (.percentage expr)
        else
          match ((roundFloat64 totalCPUs).apply (· * pct)).apply (· / 100) with
          | .finite share =>
            let sub := groupText s m 2
            if sub = [] then .ok (max 1 (toInt64 share.ceil))
            else
              match atoi (String.ofList sub) with
              | none => .error (.invalid expr)
              | some sub => .ok (max 1 (addInt (toInt64 share.ceil) (-sub)))
          | _ => .error (.invalid expr)

end Gopherd.Sys
