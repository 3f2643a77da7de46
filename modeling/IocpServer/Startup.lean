import IocpServer.Parser.Entries
import IocpServer.Slots

/-!
# Start

`LanServer::Start` up to the threads: what it reads from the configuration, and the slots it makes.

* `Setting`, `start` — the settings and the function.
* `Config` — a text in the form of `config.txt`: its groups and the lines of each in any order, any
  numbers and address, a comment behind any value.
* `Stored` — the settings are those that are written, as far as the types hold them; the address is
  not stored.
* `start_config` — **`Start` stores the settings, and leaves the slots from which the sessions begin.**
-/

set_option autoImplicit false

namespace IocpServer

open Lib IocpServer.Parser

namespace LanServer

/-- `Setting`. -/
structure Setting where
  openIp : UInt32
  port : UInt16
  threadCount : Int32
  runningThreadCount : Int32
  activateNagle : Bool
  maxPlayerCount : Int32
  maxSessionCount : Int32
  maxWaitSendTime : Int32
  maxWaitSendCount : Int32
  maxWaitSendSize : Int32
  sectorTileSize : Int32
  sectorRow : Int32
  sectorCol : Int32
  deriving DecidableEq

/-- `Setting()`. -/
def Setting.new : Setting := ⟨0, 0, 0, 0, false, 0, 0, 0, 0, 0, 0, 0, 0⟩

structure Server where
  setData : Setting
  /-- The pointers; `none` is `nullptr`. -/
  sessionMap : List (Option Nat)
  /-- The top first. -/
  emptySessionMapStack : List Nat

inductive Fault where
  /-- `GetValue` copies a negative number of characters. -/
  | negativeSize
  /-- `GetValue` has not stored the pointer that is read. -/
  | unsetString
  /-- `resize` to more elements than a vector can have. -/
  | lengthError
  deriving DecidableEq

variable (buffer : Text)

/-- `GetValue(tag, key, &strings)`, and what `strings` points to. -/
def readText (tag key : String) : Except Fault Text :=
  match getValueString (some buffer) (text tag) (text key) with
  | .error _ => .error .negativeSize
  | .ok none => .error .unsetString
  | .ok (some strings) => .ok strings

/-- `GetValue(tag, key, value)`, whose result is not looked at. -/
def readNumber (tag key : String) (value : Int32) : Int32 :=
  (getValueInt (some buffer) (text tag) (text key) value).2

/-- The settings; `port` is the local variable, which is not initialized. -/
def readSetting (setData : Setting) (port : Int32) : Except Fault Setting := do
  let _strings ← readText buffer "LanServer" "IP"
  -- both branches of `wcslen(strings) == 0`
  let setData := { setData with openIp := 0 }
  let port := readNumber buffer "LanServer" "Port" port
  let setData := { setData with
    port := port.toUInt32.toUInt16
    threadCount := readNumber buffer "LanServer" "Concurrent Thread" setData.threadCount
    runningThreadCount := readNumber buffer "LanServer" "Running Thread" setData.runningThreadCount }
  let strings2 ← readText buffer "LanServer" "Nagle"
  let maxPlayerCount := readNumber buffer "LanServer" "MaxPlayer" setData.maxPlayerCount
  return { setData with
    activateNagle := strings2 = text "true"
    maxPlayerCount := maxPlayerCount
    maxSessionCount := maxPlayerCount * 2
    maxWaitSendTime := readNumber buffer "Session" "MaxWaitSendTime" setData.maxWaitSendTime
    maxWaitSendCount := readNumber buffer "Session" "MaxWaitSendCount" setData.maxWaitSendCount
    maxWaitSendSize := readNumber buffer "Session" "MaxWaitSendSize" setData.maxWaitSendSize * 1024
    sectorTileSize := readNumber buffer "Sector" "SectorTileSize" setData.sectorTileSize
    sectorRow := readNumber buffer "Sector" "SectorRow" setData.sectorRow
    sectorCol := readNumber buffer "Sector" "SectorCol" setData.sectorCol }

/-- `for (int i = n - 1; i >= 0; i--) emptySessionMapStack.Push(i);` -/
def pushSlots : Nat → List Nat → List Nat
  | 0, stack => stack
  | n + 1, stack => pushSlots n (n :: stack)

/-- `Start` on a server as constructed, up to `StartThread`.  `file` is what `ReadFile` finds, `wsa`
and `event` whether `WSAStartup` and `CreateEvent` succeed. -/
def start (file : Option Text) (port : Int32) (wsa event : Bool) : Except Fault (Bool × Server) :=
  match file with
  | none => .ok (false, ⟨.new, [], []⟩)
  | some buffer => do
    let setData ← readSetting buffer .new port
    let size := setData.maxSessionCount.toInt
    if size < 0 then .error .lengthError
    else
      return (wsa && event,
        ⟨setData, List.replicate size.toNat none, pushSlots size.toNat []⟩)

/-! ## The configuration -/

inductive Tag where
  | lanServer
  | session
  | sector
  deriving DecidableEq

namespace Tag

def name : Tag → String
  | lanServer => "LanServer"
  | session => "Session"
  | sector => "Sector"

end Tag

inductive Key where
  | ip
  | port
  | concurrentThread
  | runningThread
  | nagle
  | maxPlayer
  | maxWaitSendTime
  | maxWaitSendCount
  | maxWaitSendSize
  | sectorTileSize
  | sectorRow
  | sectorCol
  deriving DecidableEq

namespace Key

def name : Key → String
  | ip => "IP"
  | port => "Port"
  | concurrentThread => "Concurrent Thread"
  | runningThread => "Running Thread"
  | nagle => "Nagle"
  | maxPlayer => "MaxPlayer"
  | maxWaitSendTime => "MaxWaitSendTime"
  | maxWaitSendCount => "MaxWaitSendCount"
  | maxWaitSendSize => "MaxWaitSendSize"
  | sectorTileSize => "SectorTileSize"
  | sectorRow => "SectorRow"
  | sectorCol => "SectorCol"

def tag : Key → Tag
  | ip | port | concurrentThread | runningThread | nagle | maxPlayer => .lanServer
  | maxWaitSendTime | maxWaitSendCount | maxWaitSendSize => .session
  | sectorTileSize | sectorRow | sectorCol => .sector

end Key

/-- A text in the form of `config.txt`. -/
structure Config where
  ip : Text
  nagle : Bool
  /-- The digits of the other settings. -/
  digits : Key → Text
  remark : Key → Option Text
  /-- The groups and the lines of each, in their order. -/
  tags : List Tag
  lines : Tag → List Key
  /-- What stands behind the last brace. -/
  ending : Text
  ip_ok : ∀ c ∈ ip, isDigit c = true ∨ c = wchar '.'
  digits_ok : ∀ k, digits k ≠ [] ∧ ∀ c ∈ digits k, isDigit c = true
  remark_ok : ∀ k, ∀ body ∈ remark k, (0x0a : WChar) ∉ body ∧ wchar '}' ∉ body
  tags_nodup : tags.Nodup
  mem_tags : ∀ t, t ∈ tags
  lines_nodup : ∀ t, (lines t).Nodup
  mem_lines : ∀ t k, k ∈ lines t ↔ k.tag = t

namespace Config

variable (config : Config)

/-- What is written behind the name of a setting. -/
def content (k : Key) : Content :=
  match k with
  | .ip => .quoted config.ip
  | .nagle => .quoted (text (if config.nagle then "true" else "false"))
  | k => .number (config.digits k)

/-- The number a setting is set to. -/
def number (k : Key) : Nat := digitsFrom 0 (config.digits k)

end Config

/-! ## The names -/

theorem Key.isName (k : Key) : IsName (text k.name) := by
  cases k <;> exact ⟨by decide, by decide, by decide, by decide⟩

theorem Tag.isName (t : Tag) : IsName (text t.name) := by
  cases t <;> exact ⟨by decide, by decide, by decide, by decide⟩

/-- No name of a group begins with that of another. -/
theorem Tag.not_prefix {t t' : Tag} (h : t ≠ t') : ¬text t.name <+: text t'.name := by
  revert h
  cases t <;> cases t' <;> decide

/-- No name of a setting is in that of another. -/
theorem Key.not_infix {k k' : Key} (h : k ≠ k') : ¬text k.name <:+: text k'.name := by
  revert h
  cases k <;> cases k' <;> decide +kernel

/-- A capital letter. -/
def isCapital (c : WChar) : Bool := wchar 'A' ≤ c && c ≤ wchar 'Z'

theorem Key.head_capital (k : Key) : ∀ c ∈ (text k.name).head?, isCapital c = true := by
  have hall : (text k.name).head?.all isCapital = true := by
    cases k <;> decide
  intro c hc
  rwa [hc] at hall

theorem isDigit_capital {c : WChar} (h : isDigit c = true) : isCapital c = false := by
  simp only [isDigit, isCapital, Bool.and_eq_true, decide_eq_true_eq, Bool.and_eq_false_iff,
    decide_eq_false_iff_not, UInt16.le_iff_toNat_le] at h ⊢
  have hnine : (wchar '9').toNat < (wchar 'A').toNat := by decide
  omega

namespace Config

variable {config : Config}

theorem content_wellFormed (k : Key) : (config.content k).WellFormed := by
  have hdot : wchar '.' ∉ special := by decide
  have hnagle : ∀ b : Bool, ∀ c ∈ text (if b then "true" else "false"), c ∉ special := by decide
  cases k with
  | ip =>
    intro c hc hspecial
    rcases config.ip_ok c hc with hdigit | rfl
    · rw [isDigit_special c hspecial] at hdigit
      cases hdigit
    · exact hdot hspecial
  | nagle => exact hnagle config.nagle
  | _ => exact config.digits_ok _

/-- No name begins in a value. -/
theorem content_capital (k : Key) : ∀ c ∈ (config.content k).render, isCapital c = false := by
  have hquote : isCapital (wchar '"') = false := by decide
  have hquoted : ∀ s : Text, (∀ c ∈ s, isCapital c = false) →
      ∀ c ∈ (Content.quoted s).render, isCapital c = false := by
    intro s hs c hc
    rcases List.mem_cons.mp hc with rfl | hc
    · exact hquote
    · rcases List.mem_append.mp hc with hc | hc
      · exact hs c hc
      · exact List.mem_singleton.mp hc ▸ hquote
  have hnagle : ∀ b : Bool, ∀ c ∈ text (if b then "true" else "false"), isCapital c = false := by
    decide
  cases k with
  | ip =>
    refine hquoted config.ip fun c hc => ?_
    rcases config.ip_ok c hc with hdigit | rfl
    · exact isDigit_capital hdigit
    · decide
  | nagle => exact hquoted _ (hnagle config.nagle)
  | _ => exact fun c hc => isDigit_capital ((config.digits_ok _).2 c hc)

variable (config)

/-- The line of a setting. -/
def entry (k : Key) : Entry where
  name := text k.name
  content := config.content k
  remark := config.remark k
  isName := k.isName
  wellFormed := content_wellFormed k
  remark_ok := config.remark_ok k

def group (t : Tag) : Group where
  tag := text t.name
  entries := (config.lines t).map config.entry
  isName := t.isName

/-- The text of the configuration. -/
def text : Text := renderGroups config.ending (config.tags.map config.group)

/-- The settings of a configuration: the address is ignored, the port is cut to 16 bits, an `int` to 32,
and the size is in bytes. -/
def setting : Setting where
  openIp := 0
  port := UInt16.ofNat (config.number .port)
  threadCount := Int32.ofNat (config.number .concurrentThread)
  runningThreadCount := Int32.ofNat (config.number .runningThread)
  activateNagle := config.nagle
  maxPlayerCount := Int32.ofNat (config.number .maxPlayer)
  maxSessionCount := Int32.ofNat (config.number .maxPlayer * 2)
  maxWaitSendTime := Int32.ofNat (config.number .maxWaitSendTime)
  maxWaitSendCount := Int32.ofNat (config.number .maxWaitSendCount)
  maxWaitSendSize := Int32.ofNat (config.number .maxWaitSendSize * 1024)
  sectorTileSize := Int32.ofNat (config.number .sectorTileSize)
  sectorRow := Int32.ofNat (config.number .sectorRow)
  sectorCol := Int32.ofNat (config.number .sectorCol)

/-- The settings are those that are written: whatever the address is, `openIp` is 0, and the other
numbers are as they are written if the types hold them. -/
structure Stored (s : Setting) : Prop where
  openIp : s.openIp = 0
  port : config.number .port < 2 ^ 16 → s.port.toNat = config.number .port
  activateNagle : s.activateNagle = config.nagle
  int : ∀ n f, (n, f) ∈
      [(config.number .concurrentThread, s.threadCount),
        (config.number .runningThread, s.runningThreadCount),
        (config.number .maxPlayer, s.maxPlayerCount),
        (config.number .maxPlayer * 2, s.maxSessionCount),
        (config.number .maxWaitSendTime, s.maxWaitSendTime),
        (config.number .maxWaitSendCount, s.maxWaitSendCount),
        (config.number .maxWaitSendSize * 1024, s.maxWaitSendSize),
        (config.number .sectorTileSize, s.sectorTileSize),
        (config.number .sectorRow, s.sectorRow), (config.number .sectorCol, s.sectorCol)] →
    n < 2 ^ 31 → f.toInt = n

theorem stored_setting : config.Stored config.setting where
  openIp := rfl
  port := UInt16.toNat_ofNat_of_lt'
  activateNagle := rfl
  int n f hmem hn := by
    have hf : f = Int32.ofNat n := by
      simp only [setting, List.mem_cons, Prod.mk.injEq, List.not_mem_nil, or_false] at hmem
      rcases hmem with ⟨rfl, rfl⟩ | ⟨rfl, rfl⟩ | ⟨rfl, rfl⟩ | ⟨rfl, rfl⟩ | ⟨rfl, rfl⟩ | ⟨rfl, rfl⟩ |
        ⟨rfl, rfl⟩ | ⟨rfl, rfl⟩ | ⟨rfl, rfl⟩ | ⟨rfl, rfl⟩ <;> rfl
    rw [hf]
    exact Int32.toInt_ofNat_of_lt hn

variable {config}

/-! ## Every setting is found -/

theorem entry_passed {k k' : Key} (h : k ≠ k') : (config.entry k').Passed (config.entry k).name := by
  refine ⟨Key.not_infix h, fun c hc hmem => ?_⟩
  have hcapital := k.head_capital c hc
  rw [content_capital k' c hmem] at hcapital
  cases hcapital

/-- **The line of a setting is found.** -/
theorem finds (k : Key) :
    Finds (config.tags.map config.group) (Parser.text k.tag.name) (config.entry k) := by
  obtain ⟨front, back, htags⟩ := List.append_of_mem (config.mem_tags k.tag)
  obtain ⟨before, after, hlines⟩ := List.append_of_mem ((config.mem_lines k.tag k).mpr rfl)
  refine ⟨front.map config.group, config.group k.tag, back.map config.group, ?_, rfl, ?_,
    before.map config.entry, after.map config.entry, ?_, ?_⟩
  · rw [htags, List.map_append, List.map_cons]
  · intro g' hg'
    obtain ⟨t, ht, rfl⟩ := List.mem_map.mp hg'
    refine Tag.not_prefix ?_
    rintro rfl
    have hnodup := htags ▸ config.tags_nodup
    exact (List.nodup_append.mp hnodup).2.2 _ ht _ List.mem_cons_self rfl
  · show (config.lines k.tag).map config.entry = _
    rw [hlines, List.map_append, List.map_cons]
  · intro e he
    obtain ⟨k', hk', rfl⟩ := List.mem_map.mp he
    refine entry_passed ?_
    rintro rfl
    have hnodup := hlines ▸ config.lines_nodup k.tag
    exact (List.nodup_append.mp hnodup).2.2 _ hk' _ List.mem_cons_self rfl

theorem readNumber_eq {k : Key} {value : Int32} (h : config.content k = .number (config.digits k)) :
    readNumber config.text k.tag.name k.name value = Int32.ofNat (config.number k) :=
  congrArg Prod.snd (getValueInt_entry (finds k) h)

theorem readText_eq {k : Key} {s : Text} (h : config.content k = .quoted s) :
    readText config.text k.tag.name k.name = .ok s := by
  have hread : getValueString (some config.text) (Parser.text k.tag.name) (Parser.text k.name) =
      .ok (some s) := getValueString_entry (finds k) h
  rw [readText, hread]

end Config

variable {config : Config}

theorem toUInt16_ofNat (n : Nat) : (Int32.ofNat n).toUInt32.toUInt16 = UInt16.ofNat n := by
  apply UInt16.toNat_inj.mp
  simp

/-- **What is read** are the settings of the configuration. -/
theorem readSetting_config (port : Int32) :
    readSetting config.text .new port = .ok config.setting := by
  have numbers (k : Key) (h : config.content k = .number (config.digits k)) (value : Int32) :
      readNumber config.text k.tag.name k.name value = Int32.ofNat (config.number k) :=
    Config.readNumber_eq h
  have ip : readText config.text "LanServer" "IP" = .ok config.ip :=
    Config.readText_eq (k := .ip) rfl
  have nagle : readText config.text "LanServer" "Nagle" =
      .ok (text (if config.nagle then "true" else "false")) :=
    Config.readText_eq (k := .nagle) rfl
  have activate : ∀ b : Bool,
      decide (text (if b then "true" else "false") = text "true") = b := by
    decide
  unfold readSetting
  rw [ip, nagle]
  show Except.ok _ = Except.ok _
  rw [Config.setting, activate, Int32.ofNat_mul, Int32.ofNat_mul, ← toUInt16_ofNat,
    ← numbers .port rfl port, ← numbers .concurrentThread rfl 0, ← numbers .runningThread rfl 0,
    ← numbers .maxPlayer rfl 0, ← numbers .maxWaitSendTime rfl 0, ← numbers .maxWaitSendCount rfl 0,
    ← numbers .maxWaitSendSize rfl 0, ← numbers .sectorTileSize rfl 0, ← numbers .sectorRow rfl 0,
    ← numbers .sectorCol rfl 0]
  rfl

theorem pushSlots_eq (n : Nat) (stack : List Nat) : pushSlots n stack = List.range n ++ stack := by
  induction n generalizing stack with
  | zero => rfl
  | succ n ih => rw [pushSlots, ih, List.range_succ, List.append_assoc, List.singleton_append]

/-- **Start.**  On a configuration with any values, in any order of its groups and their lines and with
any comments behind the values, `Start` ignores the address, stores every number that its type holds
as it is written, the size in bytes, and makes two free slots for each player, the lowest on top, as
the sessions begin with; unless their number is none of an `int`. -/
theorem start_config {port : Int32} {wsa event : Bool}
    (hmax : config.number .maxPlayer * 2 < 2 ^ 31) :
    ∃ server, start (some config.text) port wsa event = .ok (wsa && event, server) ∧
      server.setData = config.setting ∧ config.Stored server.setData ∧
      server.sessionMap = List.replicate (config.number .maxPlayer * 2) none ∧
      ∀ uniqueCharacterId, server.emptySessionMapStack =
        (Slots.init (config.number .maxPlayer * 2) uniqueCharacterId).emptySessionMapStack := by
  have size : config.setting.maxSessionCount.toInt = (config.number .maxPlayer * 2 : Nat) :=
    Int32.toInt_ofNat_of_lt hmax
  refine ⟨⟨config.setting, List.replicate (config.number .maxPlayer * 2) none,
    List.range (config.number .maxPlayer * 2)⟩, ?_, rfl, config.stored_setting, rfl, fun _ => rfl⟩
  simp only [start, readSetting_config]
  show (if config.setting.maxSessionCount.toInt < 0 then _ else _) = _
  rw [size, if_neg (by omega), Int.toNat_natCast, pushSlots_eq, List.append_nil]
  rfl

/-- The configuration of the repository. -/
def shipped : Config where
  ip := text "0.0.0.0"
  nagle := true
  digits
    | .port => text "17700"
    | .concurrentThread => text "4"
    | .runningThread => text "2"
    | .maxPlayer => text "11000"
    | .maxWaitSendTime => text "10"
    | .maxWaitSendCount => text "20"
    | .maxWaitSendSize => text "4"
    | .sectorTileSize => text "128"
    | .sectorRow => text "50"
    | .sectorCol => text "50"
    | _ => text "0"
  remark
    | .maxWaitSendTime => some (text "ms")
    | .maxWaitSendCount => some (text " 개")
    | .maxWaitSendSize => some (text " kb")
    | _ => none
  tags := [.lanServer, .session, .sector]
  lines
    | .lanServer => [.ip, .port, .concurrentThread, .runningThread, .nagle, .maxPlayer]
    | .session => [.maxWaitSendTime, .maxWaitSendCount, .maxWaitSendSize]
    | .sector => [.sectorTileSize, .sectorRow, .sectorCol]
  ending := []
  ip_ok := by decide
  digits_ok k := by cases k <;> decide
  remark_ok k := by cases k <;> decide
  tags_nodup := by decide
  mem_tags t := by cases t <;> decide
  lines_nodup t := by cases t <;> decide
  mem_lines t k := by cases t <;> cases k <;> decide

theorem start_config_shipped :
    shipped.text = [":LanServer\n\x7b\n", "IP = \"0.0.0.0\"\n", "Port = 17700\n",
      "Concurrent Thread = 4\n", "Running Thread = 2\n", "Nagle = \"true\"\n", "MaxPlayer = 11000\n",
      "\x7d\n:Session\n\x7b\n", "MaxWaitSendTime = 10 //ms\n", "MaxWaitSendCount = 20 // 개\n",
      "MaxWaitSendSize = 4 // kb\n", "\x7d\n:Sector\n\x7b\n", "SectorTileSize = 128\n",
      "SectorRow = 50\n", "SectorCol = 50\n", "\x7d"].flatMap text ∧
      ∃ server, start (some shipped.text) 0 true true = .ok (true, server) ∧
        server.setData = ⟨0, 17700, 4, 2, true, 11000, 22000, 10, 20, 4096, 128, 50, 50⟩ := by
  refine ⟨by decide +kernel, ?_⟩
  obtain ⟨server, hstart, hsetting, -⟩ :=
    @start_config shipped 0 true true (by decide +kernel)
  exact ⟨server, hstart, hsetting.trans (by decide +kernel)⟩

end LanServer

end IocpServer
