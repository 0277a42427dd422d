import Handheld.Network
import Handheld.TimedWait

/-!
# Waiting for the link and for the time (`SettingWifi.h`, `deviceServer.h`, `SettingTime.h`)

`connectWifi` and the web command `wifi` poll the radio every half second for ten
seconds, `connectNTP` polls the clock every second for ten. What the radio and the
clock answer, and how long `delay` and `WiFi.begin` take, is given by the
`Surroundings`.

Results:
1. `waits_end`: all waits end on time, with the last reading as their outcome.
2. `connectWifi_ends`, `wifiCommand_ends`: on the network they are the operations of
   `Network`, where the last reading says whether the link is up.
-/

namespace Handheld

open ByteString TimedWait

/-! ## Definitions -/

/-- `WL_CONNECTED`. -/
def wlConnected : UInt8 := 3

/-- What `WiFi.status()` and `time(nullptr)` answer when they are read for the
`n`-th time, and the milliseconds that the `n`-th `WiFi.begin` and `delay` take. -/
structure Surroundings where
  status : Nat → UInt8
  time : Nat → Int
  begun : Nat → UInt32
  delayed : Nat → Nat → Nat
  le_delayed : ∀ n d, d ≤ delayed n d
  delayed_lt : ∀ n d, d < 2 ^ 31 → delayed n d < 2 ^ 31

/-- The network, `millis()`, and the readings and delays made so far. -/
structure Station where
  net : Network
  millis : UInt32
  statuses : Nat
  times : Nat
  delays : Nat

/-- What `connectWifi` leaves, and the turns of its loop. -/
structure Attempt where
  turns : Nat
  state : Station

namespace Station

variable (env : Surroundings)

/-- `WiFi.status() == WL_CONNECTED`. -/
def status (s : Station) : Bool × Station :=
  let connected := env.status s.statuses == wlConnected
  (connected, { s with net := { s.net with sta := connected }, statuses := s.statuses + 1 })

/-- `time(nullptr)`, whether it is not zero. -/
def time (s : Station) : Bool × Station := (env.time s.times != 0, { s with times := s.times + 1 })

/-- `delay(ms)`. -/
def delay (ms : Nat) (s : Station) : Station :=
  { s with
    millis := s.millis + UInt32.ofNat (env.delayed s.delays ms)
    delays := s.delays + 1 }

/-- `WiFi.begin(ssid, pass)`. -/
def wifiBegin (ssid pass : Bytes) (s : Station) : Station :=
  { s with
    net := { s.net with
      staMode := true
      listed := onApList ssid
      begins := s.net.begins ++ [(ssid, pass)] }
    millis := s.millis + env.begun s.net.begins.length }

/-- `verifySound(time)`. -/
def verifySound (time : Nat) (s : Station) : Station := s.delay env time

/-- `failSound(time)`. -/
def failSound (time : Nat) (s : Station) : Station :=
  ((s.delay env time).delay env time).delay env time

/-- A polling with `delay(ms)` between the polls. -/
def polling (poll : Station → Bool × Station) (hpoll : ∀ s, (poll s).2.millis = s.millis) (ms : Nat)
    (hms : ms < 2 ^ 31) : Polling Station where
  clock := millis
  poll := poll
  pause := delay env ms
  least := ms
  clock_poll := hpoll
  clock_pause s := ⟨_, env.le_delayed s.delays ms, env.delayed_lt s.delays ms hms, rfl⟩

/-- `while (WiFi.status() != WL_CONNECTED && ...) delay(500);` -/
def linkPolling : Polling Station := polling env (status env) (fun _ => rfl) 500 (by decide)

/-- `while (!time(nullptr)) ... delay(1000);` -/
def timePolling : Polling Station := polling env (time env) (fun _ => rfl) 1000 (by decide)

/-- The wait of ten seconds since `startAttemptTime`. -/
def waitForLink (startAttemptTime : UInt32) (fuel : Nat) (s : Station) : Option (Waited Station) :=
  (linkPolling env).wait startAttemptTime 10000 fuel s

def connectNTP (fuel : Nat) (s : Station) : Option (Waited Station) :=
  (timePolling env).wait s.millis 10000 fuel s

/-- An operation on the network. -/
def onNet (f : Network → Network) (s : Station) : Station := { s with net := f s.net }

/-- `webSerial.begin()` and what follows it. -/
def serve (s : Station) : Station := s.onNet fun net => net.serve.elegantOTABegin

/-- `connectWifi` up to the start of the wait. -/
def beginWifi (ssid pass : Bytes) (s : Station) : Station :=
  let (connected, s) := s.status env
  let s := if connected then s.onNet .serverEnd else s
  (s.onNet .modeSta).wifiBegin env ssid pass

def setWifiStatus (up : Bool) (s : Station) : Station :=
  s.onNet fun net => { net with wifiStatus := up }

def connectWifi (ssid pass : Bytes) (fuel : Nat) (s : Station) : Option Attempt := do
  let s := s.beginWifi env ssid pass
  let startAttemptTime := s.millis
  let waited ← s.waitForLink env startAttemptTime fuel
  let (connected, s) := waited.state.status env
  if connected then
    let s := (s.verifySound env 300).setWifiStatus true
    let s := s.delay env 3000 -- `displayConnectedWifi()`
    let ntp ← s.connectNTP env fuel
    return ⟨waited.turns, ntp.state.serve⟩
  else
    let s := s.setWifiStatus false
    return ⟨waited.turns, s.delay env 3000⟩ -- `displayFailConnect(ssid)`

/-- The branch `cmd.startsWith("wifi")`. -/
def wifiCommand (cmd : Bytes) (fuel : Nat) (s : Station) : Option Attempt :=
  let s := s.onNet .serverEnd
  match Network.wifiArgs cmd with
  | some (ssid, pass) => do
    let startAttemptTime := s.millis
    let s := s.wifiBegin env ssid pass
    let waited ← s.waitForLink env startAttemptTime fuel
    let (connected, s) := waited.state.status env
    if connected then
      let ntp ← (s.verifySound env 300).connectNTP env fuel
      return ⟨waited.turns, ntp.state.serve⟩
    else return ⟨waited.turns, s.failSound env 100⟩
  | none => some ⟨0, s⟩

/-- The last reading of the radio said that the link is up. -/
def lastUp (s : Station) : Bool := env.status (s.statuses - 1) == wlConnected

/-! ## The two waits -/

theorem waitForLink_ends (start : UInt32) (fuel : Nat) (s : Station) :
    ∃ r, s.waitForLink env start (fuel + 21) = some r ∧ r.turns ≤ 20 :=
  (linkPolling env).wait_ends (by decide) 20 (Nat.le_add_left _ _) (by omega)

theorem connectNTP_ends (fuel : Nat) (s : Station) :
    ∃ r, s.connectNTP env (fuel + 21) = some r ∧ r.turns ≤ 10 :=
  (timePolling env).wait_ends (by decide) 10 (Nat.le_add_left _ _) (by omega)

/-- A reading of the radio sets the link. -/
theorem status_net {s : Station} {net : Network}
    (h : ∃ up, s.net = { net with sta := up }) :
    (s.status env).2.net = { net with sta := (s.status env).1 } := by
  obtain ⟨up, hup⟩ := h
  show ({ s.net with sta := (s.status env).1 } : Network) = _
  rw [hup]

section waits

variable {env}

/-- The wait for the link changes nothing in the network but the link. -/
theorem waitForLink_net {start : UInt32} {fuel : Nat} {s : Station} {r : Waited Station}
    (h : s.waitForLink env start fuel = some r) : ∃ up, r.state.net = { s.net with sta := up } := by
  obtain ⟨t, ht, hpoll⟩ := (linkPolling env).wait_rule
    (I := fun _ t => ∃ up, t.net = { s.net with sta := up })
    (fun _ t ht => ⟨_, status_net env ht⟩) (n := 0) ⟨s.net.sta, rfl⟩ h
  have hstate : (t.status env).2 = r.state := congrArg Prod.snd hpoll
  rw [← hstate]
  exact ⟨_, status_net env ht⟩

/-- The wait for the time leaves the network alone, and its outcome is the last reading. -/
theorem connectNTP_eq {fuel : Nat} {s : Station} {r : Waited Station}
    (h : s.connectNTP env fuel = some r) :
    r.state.net = s.net ∧ r.state.statuses = s.statuses ∧ r.state.delays = s.delays + r.turns ∧
      r.answered = (env.time (r.state.times - 1) != 0) := by
  have hturn : ∀ (n : Nat) (t : Station),
      t.net = s.net ∧ t.statuses = s.statuses ∧ t.delays = s.delays + n →
        t.net = s.net ∧ t.statuses = s.statuses ∧ t.delays + 1 = s.delays + (n + 1) :=
    fun n t ht => ⟨ht.1, ht.2.1, congrArg (· + 1) ht.2.2⟩
  obtain ⟨t, ⟨hnet, hstatuses, hdelays⟩, hpoll⟩ := (timePolling env).wait_rule
    (I := fun n t => t.net = s.net ∧ t.statuses = s.statuses ∧ t.delays = s.delays + n)
    hturn (n := 0) ⟨rfl, rfl, rfl⟩ h
  have hanswered : (t.time env).1 = r.answered := congrArg Prod.fst hpoll
  have hstate : (t.time env).2 = r.state := congrArg Prod.snd hpoll
  rw [← hstate, ← hanswered]
  rw [Nat.zero_add] at hdelays
  exact ⟨hnet, hstatuses, hdelays, rfl⟩

end waits

/-! ## The two connections -/

section connections

variable {env}

/-- What follows the start of the wait, on the network. -/
theorem connectWifi_of_beginWifi (ssid pass : Bytes) (up : Bool) (s : Station) :
    ({ s.net with sta := (s.status env).1 } : Network).connectWifi ssid pass up =
      let net : Network := { (s.beginWifi env ssid pass).net with sta := up, wifiStatus := up }
      if up then net.serve.elegantOTABegin else net := by
  have hread : (s.status env).2.net = { s.net with sta := (s.status env).1 } := rfl
  unfold Network.connectWifi beginWifi
  generalize s.status env = reading at hread ⊢
  obtain ⟨first, net, millis, statuses, times, delays⟩ := reading
  obtain rfl : net = { s.net with sta := first } := hread
  cases first <;> cases up <;> rfl

end connections

/-- Once the link is up: the time, and the server. -/
theorem serve_ends (fuel : Nat) (s : Station) :
    ∃ ntp, s.connectNTP env (fuel + 21) = some ntp ∧
      ntp.state.serve.net = s.net.serve.elegantOTABegin ∧
        ntp.state.serve.lastUp env = s.lastUp env := by
  obtain ⟨ntp, hntp, -⟩ := connectNTP_ends env fuel s
  obtain ⟨hnet, hstatuses, -⟩ := connectNTP_eq hntp
  refine ⟨ntp, hntp, ?_, ?_⟩
  · show ntp.state.net.serve.elegantOTABegin = _
    rw [hnet]
  · show (env.status (ntp.state.statuses - 1) == wlConnected) = _
    rw [hstatuses]
    rfl

theorem connectWifi_ends (ssid pass : Bytes) (fuel : Nat) (s : Station) :
    ∃ r, s.connectWifi env ssid pass (fuel + 21) = some r ∧ r.turns ≤ 20 ∧
      r.state.net = ({ s.net with sta := (s.status env).1 } : Network).connectWifi ssid pass
        (r.state.lastUp env) := by
  obtain ⟨waited, hwaited, hturns⟩ := waitForLink_ends env (s.beginWifi env ssid pass).millis
    fuel (s.beginWifi env ssid pass)
  have hnet := status_net env (waitForLink_net hwaited)
  have hlast : (waited.state.status env).2.lastUp env = (waited.state.status env).1 := rfl
  unfold connectWifi
  simp only [hwaited, Option.bind_eq_bind, Option.bind_some]
  generalize waited.state.status env = reading at hnet hlast ⊢
  obtain ⟨up, read⟩ := reading
  cases up with
  | true =>
    obtain ⟨ntp, hntp, hserved, hup⟩ := serve_ends env fuel
      (((read.verifySound env 300).setWifiStatus true).delay env 3000)
    refine ⟨⟨waited.turns, ntp.state.serve⟩, by rw [if_pos rfl, hntp]; rfl, hturns, ?_⟩
    rw [hserved, hup.trans hlast, connectWifi_of_beginWifi]
    show ({ read.net with wifiStatus := true } : Network).serve.elegantOTABegin = _
    rw [hnet]
    rfl
  | false =>
    refine ⟨⟨waited.turns, (read.setWifiStatus false).delay env 3000⟩, rfl, hturns, ?_⟩
    have hdown : ((read.setWifiStatus false).delay env 3000).lastUp env = false := hlast
    rw [hdown, connectWifi_of_beginWifi]
    show ({ read.net with wifiStatus := false } : Network) = _
    rw [hnet]
    rfl

theorem wifiCommand_ends (cmd : Bytes) (fuel : Nat) (s : Station) :
    ∃ r, s.wifiCommand env cmd (fuel + 21) = some r ∧ r.turns ≤ 20 ∧
      r.state.net = s.net.wifiCommand cmd (r.state.lastUp env) := by
  unfold wifiCommand Network.wifiCommand
  cases Network.wifiArgs cmd with
  | none => exact ⟨⟨0, s.onNet .serverEnd⟩, rfl, Nat.zero_le 20, rfl⟩
  | some args =>
    obtain ⟨ssid, pass⟩ := args
    obtain ⟨waited, hwaited, hturns⟩ := waitForLink_ends env (s.onNet .serverEnd).millis fuel
      ((s.onNet .serverEnd).wifiBegin env ssid pass)
    have hnet := status_net env (waitForLink_net hwaited)
    have hlast : (waited.state.status env).2.lastUp env = (waited.state.status env).1 := rfl
    simp only [hwaited, Option.bind_eq_bind, Option.bind_some]
    generalize waited.state.status env = reading at hnet hlast ⊢
    obtain ⟨up, read⟩ := reading
    cases up with
    | true =>
      obtain ⟨ntp, hntp, hserved, hup⟩ := serve_ends env fuel (read.verifySound env 300)
      refine ⟨⟨waited.turns, ntp.state.serve⟩, by rw [if_pos rfl, hntp]; rfl, hturns, ?_⟩
      rw [hserved, hup.trans hlast]
      show read.net.serve.elegantOTABegin = _
      rw [hnet]
      rfl
    | false =>
      refine ⟨⟨waited.turns, read.failSound env 100⟩, rfl, hturns, ?_⟩
      have hdown : (read.failSound env 100).lastUp env = false := hlast
      rw [hdown]
      exact hnet

end Station

theorem Network.wifiStatus_connectWifi (ssid pass : Bytes) (linkUp : Bool) (s : Network) :
    (s.connectWifi ssid pass linkUp).wifiStatus = linkUp := by
  cases linkUp <;> rfl

/-- The waits end on time: at most twenty turns for the link and ten delays for the
time, and what they leave is what was read last. -/
structure EndsOnTime (env : Surroundings) (s : Station) (fuel : Nat) : Prop where
  connectWifi : ∀ ssid pass, ∃ r, s.connectWifi env ssid pass fuel = some r ∧ r.turns ≤ 20 ∧
    r.state.net.wifiStatus = (env.status (r.state.statuses - 1) == wlConnected)
  wifiCommand : ∀ cmd, ∃ r, s.wifiCommand env cmd fuel = some r ∧ r.turns ≤ 20
  connectNTP : ∃ r, s.connectNTP env fuel = some r ∧ r.state.delays ≤ s.delays + 10 ∧
    (r.answered = true ↔ env.time (r.state.times - 1) ≠ 0)

/-- Wherever the counter is at the start and whatever is read. -/
theorem waits_end (env : Surroundings) (s : Station) (fuel : Nat) : EndsOnTime env s (fuel + 21) := by
  refine ⟨fun ssid pass => ?_, fun cmd => ?_, ?_⟩
  · obtain ⟨r, hr, hturns, hnet⟩ := s.connectWifi_ends env ssid pass fuel
    refine ⟨r, hr, hturns, ?_⟩
    rw [hnet]
    exact Network.wifiStatus_connectWifi ssid pass (r.state.lastUp env) _
  · obtain ⟨r, hr, hturns, -⟩ := s.wifiCommand_ends env cmd fuel
    exact ⟨r, hr, hturns⟩
  · obtain ⟨r, hr, hturns⟩ := s.connectNTP_ends env fuel
    obtain ⟨-, -, hdelays, hanswered⟩ := Station.connectNTP_eq hr
    refine ⟨r, hr, by rw [hdelays]; omega, ?_⟩
    rw [hanswered]
    exact bne_iff_ne

/-- A radio that never connects. -/
def Surroundings.silent : Surroundings :=
  ⟨fun _ => 0, fun _ => 0, fun _ => 0, fun _ d => d, fun _ _ => Nat.le_refl _, fun _ _ h => h⟩

-- all twenty turns are taken, and the counter wraps around in the first one
example : ((⟨.boot, 4294967000, 0, 0, 0⟩ : Station).connectWifi .silent (ascii "a") (ascii "b") 21).map
    Attempt.turns = some 20 := by
  decide

end Handheld
