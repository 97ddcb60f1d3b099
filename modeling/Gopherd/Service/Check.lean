import Gopherd.Go.Duration

/-!
The health checks of a configuration and `check.New`, which decides whether one
can be run. Whether `net/http` takes a URL is part of the data.
-/

namespace Gopherd

open Go

structure HttpCheck where
  url : String
  socket : String
  -- the verdict of `http.NewRequest` on the URL
  requestable : Bool
  deriving DecidableEq

structure TcpCheck where
  host : String
  port : Int
  deriving DecidableEq

structure ExecCheck where
  command : String
  args : List String
  deriving DecidableEq

structure CheckConfig where
  http : Option HttpCheck
  tcp : Option TcpCheck
  exec : Option ExecCheck
  period : String
  timeout : String
  initialDelay : String
  threshold : Int
  deriving DecidableEq

inductive CheckError where
  | period (check text : String)
  | timeout (check text : String)
  | checkType (check : String)
  | initialDelay (check text : String)
  | httpUrl (check url : String)
  | tcpPort (check : String) (port : Int)
  deriving DecidableEq

structure Checker where
  name : String
  cfg : CheckConfig
  period : Duration
  timeout : Duration
  initialDelay : Duration
  threshold : Int
  tcpAddr : String
  deriving DecidableEq

/-- A duration that must be positive; the empty text gives the default. -/
def positiveOr (defaultValue : Duration) (error : CheckError) (text : String) :
    Except CheckError Duration :=
  match parseDuration text with
  | .ok value =>
    if 0 < value then .ok value else if text = "" then .ok defaultValue else .error error
  | .error _ => if text = "" then .ok defaultValue else .error error

/-- The delay before the first probe; one period unless it is set. -/
def newInitialDelay (name : String) (period : Duration) (text : String) :
    Except CheckError Duration :=
  if text = "" then .ok period
  else
    match parseDuration text with
    | .ok value => if value < 0 then .error (.initialDelay name text) else .ok value
    | .error _ => .error (.initialDelay name text)

/-- The request of an HTTP probe is built in advance. -/
def checkRequest (name : String) (http : Option HttpCheck) : Except CheckError Unit :=
  match http with
  | some http => if http.requestable then .ok () else .error (.httpUrl name http.url)
  | none => .ok ()

def newTcpAddr (name : String) (tcp : Option TcpCheck) : Except CheckError String :=
  match tcp with
  | some tcp =>
    if tcp.port ≤ 0 ∨ 65535 < tcp.port then .error (.tcpPort name tcp.port)
    else .ok ((if tcp.host = "" then "localhost" else tcp.host) ++ ":" ++ toString tcp.port)
  | none => .ok ""

def CheckConfig.kinds (cfg : CheckConfig) : Nat :=
  cfg.http.toList.length + cfg.tcp.toList.length + cfg.exec.toList.length

/-- `check.New`. -/
def Checker.new (name : String) (cfg : CheckConfig) : Except CheckError Checker := do
  let period ← positiveOr (10 * secondDuration) (.period name cfg.period) cfg.period
  let timeout ← positiveOr (3 * secondDuration) (.timeout name cfg.timeout) cfg.timeout
  if cfg.kinds ≠ 1 then .error (.checkType name)
  let initialDelay ← newInitialDelay name period cfg.initialDelay
  checkRequest name cfg.http
  let tcpAddr ← newTcpAddr name cfg.tcp
  pure {
    name, cfg, period, timeout, initialDelay, tcpAddr
    threshold := if cfg.threshold ≤ 0 then 3 else cfg.threshold }

end Gopherd
