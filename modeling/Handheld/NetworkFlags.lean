import Handheld.Network

/-!
# The cached flags of the network (`Menu.h`, `SettingWifi.h`, `GUI.h`)

Two globals repeat what the radio knows: `isAPMode`, which decides the option
that the AP Mode sub-menu marks, and `WifiStatus`, which decides the icon in the
header. Each is written by some of the operations only.

Results:
1. `throughout_apFlag_iff`: `isAPMode` tells whether the soft-AP runs throughout
   a run exactly when no step stops or starts the soft-AP behind its back.
2. `throughout_wifiFlag_iff`: the same for `WifiStatus` and the station link.
-/

namespace Handheld

open ByteString

namespace Network

/-! ## Definitions -/

/-- `isAPMode` is true if and only if the soft-AP is running. -/
def ApFlag (s : Network) : Prop := s.isAPMode = true ↔ s.ap = true

/-- `WifiStatus` is true if and only if `WiFi.status()` is `WL_CONNECTED`. -/
def WifiFlag (s : Network) : Prop := s.wifiStatus = true ↔ s.sta = true

/-- The text takes the `scan wifi` branch of the callback. -/
def TakesScanBranch (cmd : Bytes) : Prop := equalsIgnoreCase cmd (ascii "scan wifi") = true

/-- The steps that keep `isAPMode` right: a keypad connect, a scan and a web scan
are so while no soft-AP runs. AP Mode On is so unless the soft-AP comes up for
the first time and mDNS fails, or `softAP` fails and takes a running one down. -/
def KeepsApFlag (s : Network) : Operation → Prop
  | .connectWifi _ _ _ => s.ap = false
  | .apModeOn .started mdns => mdns = true ∨ s.ap = true
  | .apModeOn (.failed keeps) _ => s.ap = true → keeps = true
  | .scanWiFi _ => s.ap = false
  | .command cmd _ _ => s.cmdCallback = true → TakesScanBranch cmd → s.ap = false
  | _ => True

/-- The steps that keep `WifiStatus` right: AP Mode On while the station is down,
and a web `wifi` command whose outcome is the link there was. -/
def KeepsWifiFlag (s : Network) : Operation → Prop
  | .apModeOn _ _ => s.sta = false
  | .command cmd linkUp _ => s.cmdCallback = true → TakesWifiBranch cmd →
    ∀ args, wifiArgs cmd = some args → linkUp = s.sta
  | _ => True

/-! ## What the operations leave in the flags -/

section fields

variable (s : Network) (linkUp : Bool)

/-- What a link does not change. -/
theorem wifiMultiRun_frame {α : Type} (f : Network → α)
    (hlink : ∀ up, f { s with staMode := true, sta := up, listed := up } = f s) :
    f (s.wifiMultiRun linkUp) = f s := by
  unfold wifiMultiRun
  cases s.keepsLink with
  | true => rfl
  | false => exact hlink linkUp

@[simp] theorem wiFiAutoConnect_ap : (s.wiFiAutoConnect linkUp).ap = s.ap := by
  rcases wiFiAutoConnect_eq linkUp s with ⟨-, heq⟩ | ⟨-, heq⟩
  · rw [heq]
    exact wifiMultiRun_frame s linkUp Network.ap fun _ => rfl
  · rw [heq]

@[simp] theorem wiFiAutoConnect_isAPMode : (s.wiFiAutoConnect linkUp).isAPMode = s.isAPMode := by
  rcases wiFiAutoConnect_eq linkUp s with ⟨-, heq⟩ | ⟨-, heq⟩
  · rw [heq]
    exact wifiMultiRun_frame s linkUp Network.isAPMode fun _ => rfl
  · rw [heq]

/-- `WiFiAutoConnect` sets the flag from the link that it finds or makes. -/
theorem wiFiAutoConnect_wifiFlag : (s.wiFiAutoConnect linkUp).WifiFlag := by
  unfold WifiFlag
  rcases wiFiAutoConnect_eq linkUp s with ⟨-, heq⟩ | ⟨-, heq⟩
  · rw [heq]
    exact iff_of_true rfl rfl
  · rw [heq]

variable (ssid pass : Bytes)

@[simp] theorem connectWifi_ap : (s.connectWifi ssid pass linkUp).ap = false := by
  unfold connectWifi
  cases linkUp <;> rfl

@[simp] theorem connectWifi_isAPMode :
    (s.connectWifi ssid pass linkUp).isAPMode = s.isAPMode := by
  unfold connectWifi
  cases s.sta <;> cases linkUp <;> rfl

theorem connectWifi_wifiFlag : (s.connectWifi ssid pass linkUp).WifiFlag := by
  unfold connectWifi WifiFlag
  cases linkUp with
  | true => exact iff_of_true rfl rfl
  | false => exact iff_of_false Bool.false_ne_true Bool.false_ne_true

variable (softAP : SoftAP) (mdns : Bool)

@[simp] theorem apModeOn_sta : (s.apModeOn softAP mdns).sta = false := by
  unfold apModeOn
  cases softAP with
  | failed keeps => rfl
  | started => cases mdns <;> rfl

@[simp] theorem apModeOn_wifiStatus : (s.apModeOn softAP mdns).wifiStatus = s.wifiStatus := by
  unfold apModeOn
  cases softAP with
  | failed keeps => rfl
  | started => cases mdns <;> rfl

variable (cmd : Bytes)

/-- What neither the end of the server nor a connection changes. -/
theorem wifiCommand_frame {α : Type} (f : Network → α) (hend : f s.serverEnd = f s)
    (hbegin : ∀ t ssid pass, f (wifiBegin ssid pass linkUp t) = f t)
    (hserve : ∀ t, f t.serve.elegantOTABegin = f t) : f (s.wifiCommand cmd linkUp) = f s := by
  unfold wifiCommand
  cases wifiArgs cmd with
  | none => exact hend
  | some args =>
    cases linkUp with
    | true => exact (hserve _).trans ((hbegin _ _ _).trans hend)
    | false => exact (hbegin _ _ _).trans hend

@[simp] theorem wifiCommand_ap : (s.wifiCommand cmd linkUp).ap = s.ap :=
  wifiCommand_frame s linkUp cmd Network.ap rfl (fun _ _ _ => rfl) fun _ => rfl

@[simp] theorem wifiCommand_isAPMode : (s.wifiCommand cmd linkUp).isAPMode = s.isAPMode :=
  wifiCommand_frame s linkUp cmd Network.isAPMode rfl (fun _ _ _ => rfl) fun _ => rfl

@[simp] theorem wifiCommand_wifiStatus :
    (s.wifiCommand cmd linkUp).wifiStatus = s.wifiStatus :=
  wifiCommand_frame s linkUp cmd Network.wifiStatus rfl (fun _ _ _ => rfl) fun _ => rfl

/-- A malformed command leaves the link, a well-formed one has the link it gets. -/
theorem wifiCommand_sta : (s.wifiCommand cmd linkUp).sta =
    match wifiArgs cmd with
    | none => s.sta
    | some _ => linkUp := by
  unfold wifiCommand
  cases wifiArgs cmd with
  | none => rfl
  | some args => cases linkUp <;> rfl

end fields

/-- The text of a web scan takes neither of the branches before it. -/
theorem TakesScanBranch.not_other {cmd : Bytes} (h : TakesScanBranch cmd) :
    equalsIgnoreCase cmd (ascii "reboot") = false ∧ startsWith cmd (ascii "wifi") = false := by
  have hlower : cmd.map toLower = (ascii "scan wifi").map toLower := by
    simpa [TakesScanBranch, equalsIgnoreCase] using h
  constructor
  · unfold equalsIgnoreCase
    rw [hlower]
    decide
  · cases cmd with
    | nil => rfl
    | cons c cmd =>
      have hc : toLower c = toLower 's'.toUInt8 := (List.cons.inj hlower).1
      rw [Bool.eq_false_iff]
      intro hwifi
      have hw : 'w'.toUInt8 = c := by
        simpa [startsWith, ascii] using (List.isPrefixOf_iff_prefix.mp hwifi).head
      rw [← hw] at hc
      exact absurd hc (by decide)

/-- What a web text does, by the branch it takes. -/
theorem cmdFromWeb_cases (cmd : Bytes) (linkUp : Bool) (r : ScanResult) (s : Network) :
    (s.cmdFromWeb cmd linkUp r = .boot ∧ ¬ TakesWifiBranch cmd ∧ ¬ TakesScanBranch cmd) ∨
    (s.cmdFromWeb cmd linkUp r = s.wifiCommand cmd linkUp ∧ TakesWifiBranch cmd ∧
      ¬ TakesScanBranch cmd) ∨
    (s.cmdFromWeb cmd linkUp r = s.scanWiFi r ∧ ¬ TakesWifiBranch cmd ∧ TakesScanBranch cmd) ∨
    (s.cmdFromWeb cmd linkUp r = s ∧ ¬ TakesWifiBranch cmd ∧ ¬ TakesScanBranch cmd) := by
  unfold cmdFromWeb
  by_cases hscan : TakesScanBranch cmd
  · obtain ⟨hreboot, hwifi⟩ := hscan.not_other
    have hbranch : ¬ TakesWifiBranch cmd := fun h => Bool.false_ne_true (hwifi.symm.trans h.2)
    rw [hreboot, hwifi, hscan]
    exact .inr (.inr (.inl ⟨rfl, hbranch, hscan⟩))
  · cases hreboot : equalsIgnoreCase cmd (ascii "reboot") with
    | true => exact .inl ⟨rfl, fun h => Bool.false_ne_true (h.1.symm.trans hreboot), hscan⟩
    | false =>
      cases hwifi : startsWith cmd (ascii "wifi") with
      | true => exact .inr (.inl ⟨rfl, ⟨hreboot, hwifi⟩, hscan⟩)
      | false =>
        rw [Bool.eq_false_iff.mpr hscan]
        exact .inr (.inr (.inr ⟨rfl, fun h => Bool.false_ne_true (hwifi.symm.trans h.2), hscan⟩))

/-! ## 1. `isAPMode` -/

section ApFlag

variable {s t : Network}

/-- An operation that stops the soft-AP and leaves the flag. -/
theorem apFlag_iff_of_stopped (h : s.ApFlag) (hflag : t.isAPMode = s.isAPMode)
    (hap : t.ap = false) : t.ApFlag ↔ s.ap = false := by
  unfold ApFlag at h ⊢
  rw [hflag, hap, h]
  cases s.ap <;> simp

theorem apFlag_of_same (h : s.ApFlag) (hflag : t.isAPMode = s.isAPMode) (hap : t.ap = s.ap) :
    t.ApFlag := by
  unfold ApFlag at h ⊢
  rw [hflag, hap, h]

theorem apModeOn_apFlag_iff (h : s.ApFlag) (softAP : SoftAP) (mdns : Bool) :
    (s.apModeOn softAP mdns).ApFlag ↔ s.KeepsApFlag (.apModeOn softAP mdns) := by
  unfold ApFlag at h
  cases softAP with
  | started =>
    cases mdns with
    | true => exact iff_of_true (iff_of_true rfl rfl) (.inl rfl)
    | false =>
      -- the soft-AP runs, and the flag is the old one
      show (s.isAPMode = true ↔ true = true) ↔ (false = true ∨ s.ap = true)
      rw [h]
      simp
  | failed keeps =>
    show (s.isAPMode = true ↔ (s.ap && keeps) = true) ↔ (s.ap = true → keeps = true)
    rw [h, Bool.and_eq_true]
    simp

theorem apModeOff_apFlag (linkUp : Bool) (s : Network) : (s.apModeOff linkUp).ApFlag := by
  unfold apModeOff ApFlag
  simp only [wiFiAutoConnect_isAPMode, wiFiAutoConnect_ap]
  exact iff_of_false Bool.false_ne_true Bool.false_ne_true

theorem cmdFromWeb_apFlag_iff (h : s.ApFlag) (cmd : Bytes) (linkUp : Bool) (r : ScanResult) :
    (s.cmdFromWeb cmd linkUp r).ApFlag ↔ (TakesScanBranch cmd → s.ap = false) := by
  rcases cmdFromWeb_cases cmd linkUp r s with ⟨heq, -, hscan⟩ | ⟨heq, -, hscan⟩ |
    ⟨heq, -, hscan⟩ | ⟨heq, -, hscan⟩
  · rw [heq]
    exact iff_of_true (iff_of_false Bool.false_ne_true Bool.false_ne_true) fun hs => absurd hs hscan
  · rw [heq]
    exact iff_of_true (apFlag_of_same h (s.wifiCommand_isAPMode linkUp cmd)
      (s.wifiCommand_ap linkUp cmd)) fun hs => absurd hs hscan
  · rw [heq, apFlag_iff_of_stopped (t := s.scanWiFi r) h rfl rfl]
    exact ⟨fun hap _ => hap, fun hap => hap hscan⟩
  · rw [heq]
    exact iff_of_true h fun hs => absurd hs hscan

/-- One operation keeps `isAPMode` right exactly when it is one of the steps that do. -/
theorem step_apFlag_iff (h : s.ApFlag) (op : Operation) :
    (s.step op).ApFlag ↔ s.KeepsApFlag op := by
  cases op with
  | autoConnect linkUp =>
    exact iff_of_true (apFlag_of_same h (s.wiFiAutoConnect_isAPMode linkUp)
      (s.wiFiAutoConnect_ap linkUp)) trivial
  | connectWifi ssid pass linkUp =>
    exact apFlag_iff_of_stopped h (s.connectWifi_isAPMode linkUp ssid pass)
      (s.connectWifi_ap linkUp ssid pass)
  | apModeOn softAP mdns => exact apModeOn_apFlag_iff h softAP mdns
  | apModeOff linkUp => exact iff_of_true (apModeOff_apFlag linkUp s) trivial
  | scanWiFi r => exact apFlag_iff_of_stopped h rfl rfl
  | command cmd linkUp r => exact step_command_iff h (cmdFromWeb_apFlag_iff h cmd linkUp r)

end ApFlag

/-- From boot, `isAPMode` tells whether the soft-AP runs after every operation
exactly when every operation of the run keeps it right. -/
theorem throughout_apFlag_iff (ops : List Operation) :
    Machine.Throughout step ApFlag .boot ops ↔ Machine.StepsOk step KeepsApFlag .boot ops :=
  Machine.throughout_iff_stepsOk (fun _ op h => step_apFlag_iff h op)
    (iff_of_false Bool.false_ne_true Bool.false_ne_true) ops

/-- AP Mode On, then a scan from the keypad: the sub-menu still marks On. -/
theorem apFlag_wrong_after_scan :
    let ops : List Operation := [.apModeOn .started true, .scanWiFi ⟨0, fun _ => []⟩]
    (Machine.run step .boot ops).isAPMode = true ∧ (Machine.run step .boot ops).ap = false ∧
      ¬ Machine.Throughout step ApFlag .boot ops := by
  have hflag : (Machine.run step .boot
      [.apModeOn .started true, .scanWiFi ⟨0, fun _ => []⟩]).isAPMode = true := by decide
  have hap : (Machine.run step .boot
      [.apModeOn .started true, .scanWiFi ⟨0, fun _ => []⟩]).ap = false := by decide
  refine ⟨hflag, hap, fun h => ?_⟩
  have hup := (h _ List.prefix_rfl).mp hflag
  rw [hap] at hup
  exact Bool.false_ne_true hup

/-! ## 2. `WifiStatus` -/

section WifiFlag

variable {s t : Network}

theorem wifiFlag_of_same (h : s.WifiFlag) (hflag : t.wifiStatus = s.wifiStatus)
    (hsta : t.sta = s.sta) : t.WifiFlag := by
  unfold WifiFlag at h ⊢
  rw [hflag, hsta, h]

/-- An operation that gives the link the state `linkUp` and leaves the flag. -/
theorem wifiFlag_iff_of_link (h : s.WifiFlag) (hflag : t.wifiStatus = s.wifiStatus) {linkUp : Bool}
    (hsta : t.sta = linkUp) : t.WifiFlag ↔ linkUp = s.sta := by
  unfold WifiFlag at h ⊢
  rw [hflag, hsta, h]
  cases s.sta <;> cases linkUp <;> simp

theorem wifiCommand_wifiFlag_iff (h : s.WifiFlag) (cmd : Bytes) (linkUp : Bool) :
    (s.wifiCommand cmd linkUp).WifiFlag ↔
      ∀ args, wifiArgs cmd = some args → linkUp = s.sta := by
  have hsta := s.wifiCommand_sta linkUp cmd
  cases hargs : wifiArgs cmd with
  | none =>
    rw [hargs] at hsta
    exact iff_of_true (wifiFlag_of_same h (s.wifiCommand_wifiStatus linkUp cmd) hsta)
      fun _ hsome => nomatch hsome
  | some args =>
    rw [hargs] at hsta
    rw [wifiFlag_iff_of_link h (s.wifiCommand_wifiStatus linkUp cmd) hsta]
    exact ⟨fun hlink _ _ => hlink, fun hlink => hlink args rfl⟩

theorem cmdFromWeb_wifiFlag_iff (h : s.WifiFlag) (cmd : Bytes) (linkUp : Bool) (r : ScanResult) :
    (s.cmdFromWeb cmd linkUp r).WifiFlag ↔
      (TakesWifiBranch cmd → ∀ args, wifiArgs cmd = some args → linkUp = s.sta) := by
  rcases cmdFromWeb_cases cmd linkUp r s with ⟨heq, hwifi, -⟩ | ⟨heq, hwifi, -⟩ |
    ⟨heq, hwifi, -⟩ | ⟨heq, hwifi, -⟩
  · rw [heq]
    exact iff_of_true (iff_of_false Bool.false_ne_true Bool.false_ne_true) fun hs => absurd hs hwifi
  · rw [heq, wifiCommand_wifiFlag_iff h]
    exact ⟨fun hlink _ => hlink, fun hlink => hlink hwifi⟩
  · rw [heq]
    exact iff_of_true (wifiFlag_of_same h rfl rfl) fun hs => absurd hs hwifi
  · rw [heq]
    exact iff_of_true h fun hs => absurd hs hwifi

theorem step_wifiFlag_iff (h : s.WifiFlag) (op : Operation) :
    (s.step op).WifiFlag ↔ s.KeepsWifiFlag op := by
  cases op with
  | autoConnect linkUp => exact iff_of_true (s.wiFiAutoConnect_wifiFlag linkUp) trivial
  | connectWifi ssid pass linkUp =>
    exact iff_of_true (s.connectWifi_wifiFlag linkUp ssid pass) trivial
  | apModeOn softAP mdns =>
    have hlink := wifiFlag_iff_of_link h (s.apModeOn_wifiStatus softAP mdns)
      (s.apModeOn_sta softAP mdns)
    exact hlink.trans eq_comm
  | apModeOff linkUp => exact iff_of_true (wiFiAutoConnect_wifiFlag _ linkUp) trivial
  | scanWiFi r => exact iff_of_true (wifiFlag_of_same h rfl rfl) trivial
  | command cmd linkUp r => exact step_command_iff h (cmdFromWeb_wifiFlag_iff h cmd linkUp r)

end WifiFlag

end Network

end Handheld
