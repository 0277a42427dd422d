import Handheld.Machine
import Handheld.WifiList

/-!
# The radio and the web server (`SettingWifi.h`, `deviceServer.h`, `Menu.h`)

The operations that bring the network up and down, each as one step with the
answers of the radio, of `softAP` and of mDNS given. A web text command is
handled by the callback that `commandAction` registers.

Results:
1. `step_served_iff`: which steps keep the server listening while a network
   interface is up.
2. `throughout_served_iff`: it listens throughout a run from boot exactly when
   every step of the run is such a step.
-/

namespace Handheld

open ByteString

/-! ## Definitions -/

/-- An entry of the server's handler list. -/
inductive Handler
  | on (uri : Bytes)
  | webSocket
deriving DecidableEq, Repr

/-- The networks that `WiFiAutoConnect` gives to `wifiMulti`. -/
def apList : List Bytes := [ascii "Duy Long", ascii "DuyLong", ascii "Wifi T1"]

def onApList (ssid : Bytes) : Bool := decide (cstr ssid ∈ apList)

/-- The radio, the web server and the globals that the operations write. `sta`
is `WiFi.status() == WL_CONNECTED`, `listed` that `WiFi.SSID()` is then one of
`apList`, `ap` that the soft-AP is running; `staMode` and `apMode` make up the
radio mode. `begins` are the calls of `WiFi.begin` with a chosen network. -/
structure Network where
  staMode : Bool
  apMode : Bool
  sta : Bool
  listed : Bool
  ap : Bool
  listening : Bool
  handlers : List Handler
  cmdCallback : Bool
  isAPMode : Bool
  wifiStatus : Bool
  store : ScanStore
  begins : List (Bytes × Bytes)

def Network.boot : Network :=
  ⟨false, false, false, false, false, false, [], false, false, false, .boot, []⟩

namespace Network

/-- `server.begin()`. -/
def serverBegin (s : Network) : Network := { s with listening := true }

/-- `server.end()`. -/
def serverEnd (s : Network) : Network := { s with listening := false }

/-- `webSerial.begin()`. -/
def webSerialBegin (s : Network) : Network :=
  { s with handlers := s.handlers ++ [.on (ascii "/"), .webSocket] }

/-- `webSD.begin()`, which ends with `_server->begin()`. -/
def webSDBegin (s : Network) : Network :=
  serverBegin { s with
    handlers := s.handlers ++
      [.on (ascii "/readsd"), .on (ascii "/systeminfo"), .on (ascii "/listfiles"),
        .on (ascii "/upload"), .on (ascii "/file"), .on (ascii "/rename"), .on (ascii "/reboot")] }

/-- `ElegantOTA.begin(&server)`. -/
def elegantOTABegin (s : Network) : Network :=
  { s with
    handlers := s.handlers ++
      [.on (ascii "/updateota"), .on (ascii "/ota/start"), .on (ascii "/ota/upload")] }

/-- `commandAction()`: the callback for web text commands is registered. -/
def commandAction (s : Network) : Network := { s with cmdCallback := true }

/-- `webSerial.begin(); commandAction(); webSD.begin(); server.begin();` -/
def serve (s : Network) : Network :=
  s.webSerialBegin.commandAction.webSDBegin.serverBegin

/-- `WiFi.mode(WIFI_STA)`, which stops the soft-AP. -/
def modeSta (s : Network) : Network := { s with staMode := true, apMode := false, ap := false }

/-- `WiFi.mode(WIFI_AP)`, which ends the station link. -/
def modeAp (s : Network) : Network := { s with staMode := false, apMode := true, sta := false }

/-- `WiFi.begin(ssid, pass)` and the wait for it: the previous link is dropped. -/
def wifiBegin (ssid pass : Bytes) (linkUp : Bool) (s : Network) : Network :=
  { s with
    staMode := true
    sta := linkUp
    listed := onApList ssid
    begins := s.begins ++ [(ssid, pass)] }

/-- `WiFi.disconnect(true)`. -/
def disconnect (s : Network) : Network := { s with staMode := false, sta := false }

/-- `WiFi.softAPdisconnect(true)`. -/
def softAPdisconnect (s : Network) : Network := { s with apMode := false, ap := false }

/-- `connectWifi`. -/
def connectWifi (ssid pass : Bytes) (linkUp : Bool) (s : Network) : Network :=
  let s := if s.sta then s.serverEnd else s
  let s := s.modeSta.wifiBegin ssid pass linkUp
  if linkUp then ({ s with wifiStatus := true } : Network).serve.elegantOTABegin
  -- the server stays ended; `WIFI_STA` has stopped the soft-AP, so nothing is up
  else { s with wifiStatus := false }

/-- `wifiMulti.run()` keeps a link to a network of its list: it is strict. -/
def keepsLink (s : Network) : Bool := s.sta && s.listed

/-- `wifiMulti.run()`, as often as `WiFiAutoConnect` calls it. A link to another
network is dropped before the scan; `linkUp` is whether a network of the list is
joined then. -/
def wifiMultiRun (linkUp : Bool) (s : Network) : Network :=
  if s.keepsLink then s else { s with staMode := true, sta := linkUp, listed := linkUp }

/-- `WiFiAutoConnect`. -/
def wiFiAutoConnect (linkUp : Bool) (s : Network) : Network :=
  let s := s.wifiMultiRun linkUp
  if s.sta then ({ s with wifiStatus := true } : Network).serve.elegantOTABegin
  else { s with wifiStatus := false }

/-- The answer of `WiFi.softAP`; a soft-AP that was running may keep running
when the call fails. -/
inductive SoftAP
  | started
  | failed (keeps : Bool)
deriving DecidableEq, Repr

/-- `startAPMode`, given the answers of `softAP` and `MDNS.begin`. -/
def startAPMode (softAP : SoftAP) (mdns : Bool) (s : Network) : Bool × Network :=
  let s := s.serverEnd.disconnect.modeAp
  match softAP with
  | .failed keeps => (false, { s with ap := s.ap && keeps })
  | .started =>
    let s := { s with ap := true }
    -- without mDNS the soft-AP runs and the server stays ended
    if mdns then (true, s.serve) else (false, s)

/-- AP Mode, On. -/
def apModeOn (softAP : SoftAP) (mdns : Bool) (s : Network) : Network :=
  let (started, s) := s.startAPMode softAP mdns
  if started then { s with isAPMode := true } else s

/-- AP Mode, Off, with the reconnection that it starts. -/
def apModeOff (linkUp : Bool) (s : Network) : Network :=
  ({ s.softAPdisconnect with isAPMode := false } : Network).serverEnd.modeSta.wiFiAutoConnect linkUp

/-- `scanWiFi`, and the branch of the web command `scan wifi`. -/
def scanWiFi (r : ScanResult) (s : Network) : Network :=
  { s.modeSta with store := s.store.scan r }

def dash : UInt8 := '-'.toUInt8

/-- The SSID and the password of a command, `none` if `secondSpace > 0` fails. -/
def wifiArgs (cmd : Bytes) : Option (Bytes × Bytes) :=
  let firstSpace := indexOf cmd dash 0
  let secondSpace := indexOf cmd dash (firstSpace + 1).toNat
  if secondSpace > 0 then
    some (substring cmd (firstSpace + 1).toNat secondSpace.toNat,
      substringFrom cmd (secondSpace.toNat + 1))
  else none

/-- The branch `cmd.startsWith("wifi")`. -/
def wifiCommand (cmd : Bytes) (linkUp : Bool) (s : Network) : Network :=
  let s := s.serverEnd
  match wifiArgs cmd with
  | some (ssid, pass) =>
    let s := s.wifiBegin ssid pass linkUp
    if linkUp then s.serve.elegantOTABegin else s
  -- the syntax is found wrong after `server.end()`
  | none => s

/-- The callback that `commandAction` registers. -/
def cmdFromWeb (cmd : Bytes) (linkUp : Bool) (r : ScanResult) (s : Network) : Network :=
  if equalsIgnoreCase cmd (ascii "reboot") then .boot
  else if startsWith cmd (ascii "wifi") then s.wifiCommand cmd linkUp
  else if equalsIgnoreCase cmd (ascii "scan wifi") then s.scanWiFi r
  else s

/-- The operations, with the answers they get. -/
inductive Operation
  | autoConnect (linkUp : Bool)
  | connectWifi (ssid pass : Bytes) (linkUp : Bool)
  | apModeOn (softAP : SoftAP) (mdns : Bool)
  | apModeOff (linkUp : Bool)
  | scanWiFi (r : ScanResult)
  | command (cmd : Bytes) (linkUp : Bool) (r : ScanResult)

def step (s : Network) : Operation → Network
  | .autoConnect linkUp => s.wiFiAutoConnect linkUp
  | .connectWifi ssid pass linkUp => s.connectWifi ssid pass linkUp
  | .apModeOn softAP mdns => s.apModeOn softAP mdns
  | .apModeOff linkUp => s.apModeOff linkUp
  | .scanWiFi r => s.scanWiFi r
  | .command cmd linkUp r => if s.cmdCallback then s.cmdFromWeb cmd linkUp r else s

/-! ## 1. One operation -/

/-- While a network interface is up the server is listening. -/
def Served (s : Network) : Prop := s.sta = true ∨ s.ap = true → s.listening = true

/-- The text takes the `wifi` branch of the callback. -/
def TakesWifiBranch (cmd : Bytes) : Prop :=
  equalsIgnoreCase cmd (ascii "reboot") = false ∧ startsWith cmd (ascii "wifi") = true

/-- The steps that stop the server and leave an interface up are: a `wifi`
command without two dashes while an interface is up, one whose connection fails
while the soft-AP is running, and AP Mode On when only mDNS fails, or when
`softAP` fails and the soft-AP keeps running. -/
def Keeps (s : Network) : Operation → Prop
  | .apModeOn .started mdns => mdns = true
  | .apModeOn (.failed keeps) _ => s.ap = true → keeps = false
  | .command cmd linkUp _ => s.cmdCallback = true → TakesWifiBranch cmd →
    match wifiArgs cmd with
    | some _ => s.ap = true → linkUp = true
    | none => s.sta = false ∧ s.ap = false
  | _ => True

theorem served_of_listening {s : Network} (h : s.listening = true) : s.Served := fun _ => h

theorem served_of_down {s : Network} (hsta : s.sta = false) (hap : s.ap = false) : s.Served := by
  rintro (h | h)
  · exact absurd (hsta.symm.trans h) Bool.false_ne_true
  · exact absurd (hap.symm.trans h) Bool.false_ne_true

/-- A server that is not listening serves exactly when no interface is up. -/
theorem served_iff_of_not_listening {s : Network} (h : s.listening = false) :
    s.Served ↔ s.sta = false ∧ s.ap = false := by
  constructor
  · intro hserved
    have hdown : ¬ (s.sta = true ∨ s.ap = true) := fun hup =>
      Bool.false_ne_true (h.symm.trans (hserved hup))
    simpa using hdown
  · exact fun hdown => served_of_down hdown.1 hdown.2

/-- The station has a link afterwards if it keeps the one it has or gets one, and
then the server is brought up. -/
theorem wiFiAutoConnect_eq (linkUp : Bool) (s : Network) :
    ((s.keepsLink = true ∨ linkUp = true) ∧ s.wiFiAutoConnect linkUp =
        ({ s.wifiMultiRun linkUp with sta := true, wifiStatus := true } : Network).serve.elegantOTABegin) ∨
      (¬ (s.keepsLink = true ∨ linkUp = true) ∧ s.wiFiAutoConnect linkUp =
        { s with staMode := true, sta := false, listed := false, wifiStatus := false }) := by
  unfold wiFiAutoConnect wifiMultiRun
  cases hkeeps : s.keepsLink with
  | true =>
    have hsta : s.sta = true := (Bool.and_eq_true _ _ ▸ hkeeps : s.sta = true ∧ s.listed = true).1
    refine .inl ⟨.inl rfl, ?_⟩
    simp only [↓reduceIte]
    rw [if_pos hsta, ← hsta]
  | false =>
    cases linkUp with
    | true => exact .inl ⟨.inr rfl, rfl⟩
    | false => exact .inr ⟨by simp, rfl⟩

/-- Either the server is brought up, or the station is down and nothing else changes. -/
theorem wiFiAutoConnect_cases (linkUp : Bool) (s : Network) :
    (s.wiFiAutoConnect linkUp).listening = true ∨
      (s.wiFiAutoConnect linkUp).sta = false ∧ (s.wiFiAutoConnect linkUp).ap = s.ap ∧
        (s.wiFiAutoConnect linkUp).listening = s.listening := by
  rcases wiFiAutoConnect_eq linkUp s with ⟨-, heq⟩ | ⟨-, heq⟩
  · rw [heq]
    exact .inl rfl
  · rw [heq]
    exact .inr ⟨rfl, rfl, rfl⟩

theorem wiFiAutoConnect_served (linkUp : Bool) {s : Network} (h : s.Served) :
    (s.wiFiAutoConnect linkUp).Served := by
  rcases wiFiAutoConnect_cases linkUp s with hup | ⟨hsta, hap, hsame⟩
  · exact served_of_listening hup
  · rintro (hup | hup)
    · exact absurd (hsta.symm.trans hup) Bool.false_ne_true
    · rw [hsame]
      exact h (.inr (hap ▸ hup))

theorem connectWifi_served (ssid pass : Bytes) (linkUp : Bool) (s : Network) :
    (s.connectWifi ssid pass linkUp).Served := by
  unfold connectWifi
  cases linkUp with
  | true => exact fun _ => rfl
  | false => exact served_of_down rfl rfl

theorem apModeOn_served_iff (softAP : SoftAP) (mdns : Bool) (s : Network) :
    (s.apModeOn softAP mdns).Served ↔ s.Keeps (.apModeOn softAP mdns) := by
  cases softAP with
  | started =>
    cases mdns with
    | true => exact iff_of_true (fun _ => rfl) rfl
    | false =>
      refine iff_of_false (fun h => ?_) Bool.false_ne_true
      exact absurd (h (.inr rfl)) Bool.false_ne_true
  | failed keeps =>
    have hap : (s.apModeOn (.failed keeps) mdns).ap = (s.ap && keeps) := rfl
    rw [served_iff_of_not_listening rfl, hap]
    show false = false ∧ _ ↔ _
    unfold Keeps
    cases s.ap <;> simp

theorem apModeOff_served (linkUp : Bool) (s : Network) : (s.apModeOff linkUp).Served := by
  unfold apModeOff
  rcases wiFiAutoConnect_cases linkUp
    ({ s.softAPdisconnect with isAPMode := false } : Network).serverEnd.modeSta with hup | ⟨hsta, hap, -⟩
  · exact served_of_listening hup
  · exact served_of_down hsta hap

theorem scanWiFi_served (r : ScanResult) {s : Network} (h : s.Served) : (s.scanWiFi r).Served := by
  rintro (hup | hup)
  · exact h (.inl hup)
  · exact absurd hup Bool.false_ne_true

theorem wifiCommand_served_iff (cmd : Bytes) (linkUp : Bool) (s : Network) :
    (s.wifiCommand cmd linkUp).Served ↔
      match wifiArgs cmd with
      | some _ => s.ap = true → linkUp = true
      | none => s.sta = false ∧ s.ap = false := by
  unfold wifiCommand
  cases hargs : wifiArgs cmd with
  | none => exact served_iff_of_not_listening rfl
  | some args =>
    cases linkUp with
    | true => exact iff_of_true (fun _ => rfl) fun _ => rfl
    | false =>
      simp only [Bool.false_eq_true, ↓reduceIte]
      rw [served_iff_of_not_listening rfl]
      show false = false ∧ s.ap = false ↔ _
      simp

theorem cmdFromWeb_served_iff (cmd : Bytes) (linkUp : Bool) (r : ScanResult) {s : Network}
    (h : s.Served) :
    (s.cmdFromWeb cmd linkUp r).Served ↔ (TakesWifiBranch cmd → (s.wifiCommand cmd linkUp).Served) := by
  unfold cmdFromWeb TakesWifiBranch
  cases hreboot : equalsIgnoreCase cmd (ascii "reboot") with
  | true => exact iff_of_true (served_of_down rfl rfl) fun hbranch => absurd hbranch.1 (by simp)
  | false =>
    cases hwifi : startsWith cmd (ascii "wifi") with
    | true => simp
    | false =>
      refine iff_of_true ?_ fun hbranch => absurd hbranch.2 (by simp)
      simp only [Bool.false_eq_true, ↓reduceIte]
      split
      · exact scanWiFi_served r h
      · exact h

/-- A command has an effect only once the callback is registered. -/
theorem step_command_iff {P : Network → Prop} {Q : Prop} {s : Network} {cmd : Bytes} {linkUp : Bool}
    {r : ScanResult} (h : P s) (hcmd : P (s.cmdFromWeb cmd linkUp r) ↔ Q) :
    P (s.step (.command cmd linkUp r)) ↔ (s.cmdCallback = true → Q) := by
  show P (if s.cmdCallback then s.cmdFromWeb cmd linkUp r else s) ↔ _
  cases s.cmdCallback with
  | false => exact iff_of_true h fun hset => absurd hset Bool.false_ne_true
  | true =>
    rw [if_pos rfl, hcmd]
    exact ⟨fun hQ _ => hQ, fun hQ => hQ rfl⟩

/-- One operation keeps the server listening exactly when it is not one of the four. -/
theorem step_served_iff {s : Network} (op : Operation) (h : s.Served) :
    (s.step op).Served ↔ s.Keeps op := by
  cases op with
  | autoConnect linkUp => exact iff_of_true (wiFiAutoConnect_served linkUp h) trivial
  | connectWifi ssid pass linkUp => exact iff_of_true (connectWifi_served ssid pass linkUp s) trivial
  | apModeOn softAP mdns => exact apModeOn_served_iff softAP mdns s
  | apModeOff linkUp => exact iff_of_true (apModeOff_served linkUp s) trivial
  | scanWiFi r => exact iff_of_true (scanWiFi_served r h) trivial
  | command cmd linkUp r =>
    refine step_command_iff h ?_
    rw [cmdFromWeb_served_iff cmd linkUp r h, wifiCommand_served_iff]

/-! ## 2. Runs -/

-- AP Mode Off drops the link to a network that is not in the list of `wifiMulti`
example :
    let s := Machine.run step .boot [.connectWifi (ascii "home") (ascii "12345678") true, .apModeOff false]
    s.sta = false ∧ s.wifiStatus = false := by decide

end Network

end Handheld
