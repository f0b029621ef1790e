/-
  P2pFile.Node.ConfigStore

  Writing and loading the settings (`write_atomic`, `load`, `decode` and the
  read-modify-write operations of `src/node/core/config.rs`).

  Of JSON texts it is assumed that a value is read back from its text (`HostText`).  The
  reader refuses a file above 1 MiB before it looks at the text; the writer checks every
  field but not the size of the whole.
-/

import P2pFile.Lib.Prog
import P2pFile.Node.ConfigJson
import P2pFile.Node.TaskRecords

namespace P2pFile.Node

open Lib Protocol Storage Json
open TaskRecord (guard_ok unit_bind_ok)
open List (map_id map_map mem_cons mem_map mem_range not_mem_nil range)

/-! ## The file -/

variable (text : HostText)

/-- What is under the path of the settings. -/
inductive ConfigEntry where
  | absent
  | link
  /-- Neither a file nor a link. -/
  | other
  | file (content : text.Bytes)

abbrev ConfigCall := Prog (ConfigEntry text) ConfigError

variable {text}

/-- A call that changes nothing under the path. -/
def ConfigCall.touch : ConfigCall text Unit := .atomic fun entry => .ok ((), entry)

/-- `fs::symlink_metadata`. -/
def ConfigCall.metadata : ConfigCall text (ConfigEntry text) :=
  .atomic fun entry => .ok (entry, entry)

variable (content : text.Bytes)

/-- `fs::read`. -/
def ConfigCall.read : ConfigCall text text.Bytes := .atomic fun entry => .ok (content, entry)

/-- `fs::rename` of the temporary file. -/
def ConfigCall.rename : ConfigCall text Unit := .atomic fun _ => .ok ((), .file content)

/-- The limit of the reader, 1 MiB. -/
def maxConfigBytes : Nat := 1024 * 1024

/-- `value.get("schema_version")`, as a `u32`. -/
def schemaVersionOf : Value → Option UInt32
  | .obj fields => (fields.lookup "schema_version").bind readU32
  | _ => none

variable (text)

namespace DesktopConfig

def decode (content : text.Bytes) : Except ConfigError DesktopConfig := do
  if text.len content > maxConfigBytes then throw (.corrupt "配置超过1MiB")
  match text.parse content with
  | none => throw .corruptJson
  | some value =>
    match schemaVersionOf value with
    | none => throw (.corrupt "缺少有效的 schema_version")
    | some version =>
      if version ≠ configSchemaVersion then
        throw (.corrupt ("不支持的 schema_version " ++ toString version))
      match read text value with
      | none => throw .corruptJson
      | some config =>
        match config.validate text with
        | .error err => throw (.corrupt err.display)
        | .ok () => return config

/-- `DesktopConfig::load`. -/
def load : ConfigCall text (Option DesktopConfig) := do
  match ← ConfigCall.metadata with
  | .absent => return none
  | .link => .throw (.corrupt "拒绝读取链接形式的配置文件")
  | .other => .throw (.corrupt "配置路径不是普通文件")
  | .file content =>
    let content ← ConfigCall.read content
    match decode text content with
    | .error err => .throw err
    | .ok config => return some config

variable (config : DesktopConfig)

/-- The text that `to_vec_pretty` makes of the settings. -/
def toText : text.Bytes := text.pretty (config.toValue text)

/-- `write_atomic`.  The path has a file name. -/
def writeAtomic : ConfigCall text Unit := do
  .ofExcept (config.validate text)
  ConfigCall.touch -- `ensure_private_app_dir`
  match ← (load text).attempt with
  | .error err =>
    .throw (.corrupt ("拒绝覆盖未通过校验的原配置（" ++ err.display ++ "）"))
  | .ok _ =>
    ConfigCall.touch -- the temporary file is made,
    ConfigCall.touch -- written and synced
    ConfigCall.rename (config.toText text)
    ConfigCall.touch -- `sync_parent_dir`

/-- The read-modify-write of the settings, as of `mutate_trusted_devices`. -/
def modify (change : DesktopConfig → Except ConfigError DesktopConfig) :
    ConfigCall text Unit := do
  match ← load text with
  | none => .throw (.invalid "请先保存远程认证配置")
  | some config =>
    let config ← .ofExcept (change config)
    config.writeAtomic text

end DesktopConfig

/-! ## What validation gives -/

variable {text} {config : DesktopConfig}

theorem option_forM_mem {α : Type} {o : Option α} {f : α → Except ConfigError Unit} {a : α}
    (h : o.forM f = .ok ()) (ha : a ∈ o) : f a = .ok () :=
  TaskRecord.option_forM_ok.mp h a ha

/-- The parts of `validate` that the reader relies on. -/
theorem DesktopConfig.validate_ok (h : config.validate text = .ok ()) :
    config.schemaVersion = configSchemaVersion ∧ config.PathsShown := by
  obtain ⟨-, h⟩ := unit_bind_ok.mp h
  obtain ⟨htls, h⟩ := unit_bind_ok.mp h
  obtain ⟨hversion, h⟩ := guard_ok.mp h
  obtain ⟨-, h⟩ := unit_bind_ok.mp h
  obtain ⟨-, h⟩ := unit_bind_ok.mp h
  obtain ⟨-, h⟩ := unit_bind_ok.mp h
  obtain ⟨-, h⟩ := unit_bind_ok.mp h
  obtain ⟨-, h⟩ := unit_bind_ok.mp h
  obtain ⟨hdirectory, -⟩ := unit_bind_ok.mp h
  refine ⟨not_not.mp hversion, ?_, ?_⟩
  · intro tls ht path hpath
    have hcheck := option_forM_mem htls ht
    unfold validateSignalTls at hcheck
    split at hcheck
    · exact absurd hcheck (by simp [throw, throwThe, MonadExceptOf.throw])
    obtain ⟨-, hcheck⟩ := unit_bind_ok.mp hcheck
    have hshown := TaskRecord.last_guard_ok.mp hcheck
    rw [show tls.caFile = some path from hpath] at hshown
    simp only [Option.any_some, pathShown, Bool.not_eq_true', Bool.and_eq_false_iff,
      not_or, Bool.not_eq_false] at hshown
    exact hshown.2
  · intro path hpath
    have hcheck := option_forM_mem hdirectory hpath
    unfold validateReceivePath at hcheck
    split at hcheck
    · cases hcheck
    split at hcheck
    · cases hcheck
    next hshown =>
      exact Option.isSome_iff_ne_none.mpr (by simpa using hshown)

/-- A text of valid settings is decoded if it is not too long, but for the flow labels; what is
    left is checked again. -/
theorem DesktopConfig.decode_toText (hvalid : config.validate text = .ok ()) :
    decode text (config.toText text) =
      if text.len (config.toText text) > maxConfigBytes then .error (.corrupt "配置超过1MiB")
      else
        match config.plain.validate text with
        | .error err => .error (.corrupt err.display)
        | .ok () => .ok config.plain := by
  obtain ⟨hversion, hpaths⟩ := validate_ok hvalid
  have hread := read_toValue text hpaths
  have hfound : schemaVersionOf (config.toValue text) = some config.schemaVersion := by
    show ((config.toFields text).lookup "schema_version").bind readU32 = _
    rw [config.lookup_last text (by decide) rfl]
    exact readU32_num _
  have hparse : text.parse (config.toText text) = some (config.toValue text) :=
    text.parse_pretty _
  unfold decode
  by_cases hlong : text.len (config.toText text) > maxConfigBytes
  · rw [if_pos hlong, if_pos hlong]
    rfl
  · rw [if_neg hlong, if_neg hlong, hparse]
    show (match schemaVersionOf (config.toValue text) with
      | none => _
      | some version => _) = _
    rw [hfound]
    simp only [hversion, ne_eq, not_true_eq_false, if_false, hread]
    rfl

/-- Just the settings with a short text and without flow labels are decoded as they were. -/
theorem DesktopConfig.decode_eq_iff (hvalid : config.validate text = .ok ()) :
    decode text (config.toText text) = .ok config ↔
      text.len (config.toText text) ≤ maxConfigBytes ∧ config.PlainAddrs := by
  rw [decode_toText hvalid, ← plain_eq_iff]
  constructor
  · intro h
    split at h
    · cases h
    next hlong =>
      refine ⟨Nat.not_lt.mp hlong, ?_⟩
      split at h
      · cases h
      · exact Except.ok.inj h
  · rintro ⟨hshort, hplain⟩
    rw [if_neg (Nat.not_lt.mpr hshort), hplain, hvalid]

/-! ## Writing and loading -/

variable {P : ConfigEntry text → Prop}

theorem ConfigCall.touch_spec :
    Prog.Triple P ConfigCall.touch (fun _ => P) (fun _ => True) fun _ => True := by
  refine Prog.Triple.atomic (fun _ _ => trivial) (fun _ _ => trivial) ?_
  intro entry _ entry' h heq
  cases heq
  exact ⟨h, trivial⟩

/-- Nothing is said about how loading ends. -/
theorem DesktopConfig.load_attempt_spec {φ : Prop} (h : ∀ entry, P entry → φ) :
    Prog.Triple P (load text).attempt (fun _ _ => φ) (fun _ => True) fun _ => True := by
  intro entry plan hentry
  have hφ := h entry hentry
  unfold Prog.attempt
  cases load text entry plan with
  | mk out rest =>
    cases out with
    | ok a => exact hφ
    | error err => exact hφ
    | crashed => exact trivial

/-- Settings that were written are valid, and their text is under the path. -/
theorem DesktopConfig.writeAtomic_spec (config : DesktopConfig) :
    Prog.Triple (fun _ => True) (config.writeAtomic text)
      (fun _ entry => config.validate text = .ok () ∧ entry = .file (config.toText text))
      (fun _ => True) fun _ => True := by
  have hcheck : Prog.Triple (fun _ : ConfigEntry text => True)
      (Prog.ofExcept (config.validate text)) (fun _ _ => config.validate text = .ok ())
      (fun _ => True) fun _ => True :=
    Prog.Triple.ofExcept (fun _ h _ _ => h) fun _ h => h
  refine hcheck.bind fun _ => ConfigCall.touch_spec.bind fun _ => ?_
  refine (load_attempt_spec fun _ h => h).bind fun loaded => ?_
  cases loaded with
  | error err => exact Prog.Triple.throw fun _ _ => trivial
  | ok _ =>
    refine ConfigCall.touch_spec.bind fun _ => ConfigCall.touch_spec.bind fun _ => ?_
    refine Prog.Triple.bind ?_ fun _ => ConfigCall.touch_spec
    refine Prog.Triple.atomic (fun _ _ => trivial) (fun _ _ => trivial) ?_
    intro entry _ entry' hvalid heq
    cases heq
    exact ⟨⟨hvalid, rfl⟩, trivial⟩

/-- What loading makes of a file, if the calls work. -/
theorem DesktopConfig.load_file : load text (.file content) [] =
      (match decode text content with
        | .error err => .error err
        | .ok config => .ok (some config), .file content, []) := by
  show (match decode text content with
    | .error err => Prog.throw err
    | .ok config => (pure (some config) : ConfigCall text _)) (.file content) [] = _
  cases decode text content <;> rfl

/-- Writing valid settings over a file, if the calls work: the file must decode. -/
theorem DesktopConfig.writeAtomic_file (hvalid : config.validate text = .ok ())
    (content : text.Bytes) : ((config.writeAtomic text) (.file content) []).1 =
      match decode text content with
      | .error err =>
        .error (.corrupt ("拒绝覆盖未通过校验的原配置（" ++ err.display ++ "）"))
      | .ok _ => .ok () := by
  have hattempt : (load text).attempt (.file content) [] =
      (.ok (decode text content |>.map some), .file content, []) := by
    unfold Prog.attempt
    rw [load_file]
    cases decode text content <;> rfl
  have hrun : (config.writeAtomic text) (.file content) [] =
      ((load text).attempt >>= fun loaded => match loaded with
        | .error err =>
          Prog.throw (.corrupt ("拒绝覆盖未通过校验的原配置（" ++ err.display ++ "）"))
        | .ok _ => do
          ConfigCall.touch
          ConfigCall.touch
          ConfigCall.rename (config.toText text)
          ConfigCall.touch : ConfigCall text Unit) (.file content) [] := by
    unfold writeAtomic
    rw [hvalid]
    rfl
  rw [hrun]
  show (Prog.bind _ _ _ _).1 = _
  unfold Prog.bind
  rw [hattempt]
  cases decode text content <;> rfl

/-- **Reloading the settings.**  Settings that were written, whatever was under the path
    before and however the calls went, are loaded again as they were just if their text has
    at most 1 MiB and no address has a flow label.  The next change that is valid by itself
    is then written too. -/
theorem config_reloads {entry entry' : ConfigEntry text} {plan rest : List (Fault ConfigError)}
    (hwrite : (config.writeAtomic text) entry plan = (.ok (), entry', rest)) :
    (DesktopConfig.load text entry' [] = (.ok (some config), entry', []) ↔
      text.len (config.toText text) ≤ maxConfigBytes ∧ config.PlainAddrs) ∧
    (DesktopConfig.load text entry' [] = (.ok (some config), entry', []) →
      ∀ change changed, change config = .ok changed → changed.validate text = .ok () →
        (DesktopConfig.modify text change entry' []).1 = .ok ()) := by
  obtain ⟨hvalid, rfl⟩ := config.writeAtomic_spec.ends trivial hwrite
  have hloaded : DesktopConfig.load text (.file (config.toText text)) [] =
        (.ok (some config), .file (config.toText text), []) ↔
      DesktopConfig.decode text (config.toText text) = .ok config := by
    rw [DesktopConfig.load_file]
    cases DesktopConfig.decode text (config.toText text) with
    | error err => simp
    | ok read => simp
  refine ⟨hloaded.trans (DesktopConfig.decode_eq_iff hvalid), ?_⟩
  intro hload change changed hchange hchanged
  have hnext := DesktopConfig.writeAtomic_file hchanged (config.toText text)
  rw [hloaded.mp hload] at hnext
  show (Prog.bind _ _ _ _).1 = _
  unfold Prog.bind
  rw [hload]
  show ((Prog.ofExcept (change config) >>= fun config => config.writeAtomic text :
    ConfigCall text Unit) _ _).1 = _
  rw [hchange]
  exact hnext

/-! ## Settings that grow too long -/

/-- What one tunnel rule is checked for by itself. -/
structure RuleOk (text : HostText) (rule : TunnelRule) : Prop where
  id : validateRuleId rule.id = .ok ()
  name : validateRuleName rule.name = .ok ()
  peer : ∃ node, nodeIdFromHex text rule.peerNodeId = .ok node
  listen : isLoopback rule.listen.ip = true
  port : rule.listen.port ≠ 0
  target : validateForwardTarget text rule.target = .ok ()

/-- Any number of rules passes, as long as no two have the same identifier. -/
theorem validateRules_ok :
    ∀ {rules : List TunnelRule} {ids : List String}, (∀ rule ∈ rules, RuleOk text rule) →
      (rules.map fun rule => rule.id).Nodup → (∀ rule ∈ rules, rule.id ∉ ids) →
      validateRules text ids rules = .ok () := by
  intro rules
  induction rules with
  | nil =>
    intro ids _ _ _
    rfl
  | cons rule rest ih =>
    intro ids hok hnodup hfresh
    have hrule := hok rule (.head _)
    obtain ⟨hnew, hnodup⟩ := List.nodup_cons.mp hnodup
    have hrest : validateRules text (rule.id :: ids) rest = .ok () := by
      refine ih (fun r hr => hok r (.tail _ hr)) hnodup ?_
      intro r hr hmem
      rcases mem_cons.mp hmem with heq | hmem
      · exact hnew (mem_map.mpr ⟨r, hr, heq⟩)
      · exact hfresh r (.tail _ hr) hmem
    obtain ⟨node, hnode⟩ := hrule.peer
    have hunseen := hfresh rule (.head _)
    unfold validateRules
    rw [hrule.id, hrule.name, hnode]
    simp only [bind, Except.bind, hunseen, if_false, hrule.listen, hrule.port, or_false,
      hrule.target, hrest, Bool.true_eq_false]

namespace ConfigSample

/-- The parts of an address as numbers below the surrogates. -/
def codes : SocketAddr → List Nat
  | .v4 ip port => [port.toNat / 32768, port.toNat % 32768] ++ ip.toList.map UInt8.toNat
  | .v6 ip port _ scope =>
    [port.toNat / 32768, port.toNat % 32768, scope.toNat / 32768 / 32768,
      scope.toNat / 32768 % 32768, scope.toNat % 32768] ++ ip.toList.map UInt8.toNat

/-- An address from its parts. -/
def ofCodes : List Nat → Option SocketAddr
  | p :: q :: rest =>
    let port := UInt16.ofNat (p * 32768 + q)
    match Bytes.ofList? 4 (rest.map UInt8.ofNat), rest with
    | some ip, _ => some (.v4 ip port)
    | none, a :: b :: d :: rest =>
      (Bytes.ofList? 16 (rest.map UInt8.ofNat)).map fun ip =>
        .v6 ip port 0 (UInt32.ofNat ((a * 32768 + b) * 32768 + d))
    | none, _ => none
  | _ => none

theorem ofList?_ofNat {n : Nat} (bytes : Bytes n) :
    Bytes.ofList? n ((bytes.toList.map UInt8.toNat).map UInt8.ofNat) = some bytes := by
  have hback : (bytes.toList.map UInt8.toNat).map UInt8.ofNat = bytes.toList := by
    rw [map_map]
    exact (List.map_congr_left fun b _ => UInt8.ofNat_toNat).trans (map_id _)
  unfold Bytes.ofList?
  rw [dif_pos (by rw [hback, bytes.length_eq])]
  exact congrArg some (Bytes.ext_toList hback)

theorem ofCodes_codes (a : SocketAddr) : ofCodes (codes a) = some (plainAddr a) := by
  cases a with
  | v4 ip port =>
    have hport : UInt16.ofNat (port.toNat / 32768 * 32768 + port.toNat % 32768) = port := by
      rw [Nat.div_add_mod' port.toNat 32768, UInt16.ofNat_toNat]
    simp only [codes, List.cons_append, List.nil_append, ofCodes, ofList?_ofNat, hport]
    rfl
  | v6 ip port flow scope =>
    have hport : UInt16.ofNat (port.toNat / 32768 * 32768 + port.toNat % 32768) = port := by
      rw [Nat.div_add_mod' port.toNat 32768, UInt16.ofNat_toNat]
    have hscope : UInt32.ofNat ((scope.toNat / 32768 / 32768 * 32768 +
        scope.toNat / 32768 % 32768) * 32768 + scope.toNat % 32768) = scope := by
      rw [Nat.div_add_mod' (scope.toNat / 32768) 32768, Nat.div_add_mod' scope.toNat 32768,
        UInt32.ofNat_toNat]
    have hlong : Bytes.ofList? 4 ((scope.toNat / 32768 / 32768 ::
        scope.toNat / 32768 % 32768 :: scope.toNat % 32768 ::
          ip.toList.map UInt8.toNat).map UInt8.ofNat) = none := by
      unfold Bytes.ofList?
      simp [ip.length_eq]
    simp only [codes, List.cons_append, List.nil_append, ofCodes, hlong, ofList?_ofNat, hport,
      hscope, Option.map_some]
    rfl

theorem codes_valid (a : SocketAddr) : ∀ n ∈ codes a, n.isValidChar := by
  have hbytes : ∀ (l : List UInt8), ∀ n ∈ l.map UInt8.toNat, n.isValidChar := by
    intro l n hn
    obtain ⟨b, -, rfl⟩ := mem_map.mp hn
    have hb := b.toNat_lt
    exact .inl (by omega)
  intro n hn
  cases a with
  | v4 ip port =>
    have hport := port.toNat_lt
    rcases List.mem_append.mp hn with hn | hn
    · simp only [mem_cons, not_mem_nil, or_false] at hn
      exact .inl (by omega)
    · exact hbytes _ n hn
  | v6 ip port flow scope =>
    have hport := port.toNat_lt
    have hscope := scope.toNat_lt
    rcases List.mem_append.mp hn with hn | hn
    · simp only [mem_cons, not_mem_nil, or_false] at hn
      exact .inl (by omega)
    · exact hbytes _ n hn

/-- Texts that show the parts of an address as characters, and JSON texts with the size of
    `to_vec_pretty` and the value that they stand for. -/
def hostText : HostText where
  addr a := String.ofList ((codes a).map Char.ofNat)
  parseAddr s := ofCodes (s.toList.map Char.toNat)
  isIp _ := false
  isServerName _ := true
  hexError _ := ""
  Bytes := Nat × Option Value
  len := Prod.fst
  pretty v := (prettySize 0 v, some v)
  parse := Prod.snd
  parse_pretty _ := rfl
  parse_addr a := by
    have hback : ((codes a).map Char.ofNat).map Char.toNat = codes a := by
      rw [map_map]
      refine (List.map_congr_left fun n hn => ?_).trans (map_id _)
      show (Char.ofNat n).toNat = n
      unfold Char.ofNat
      rw [dif_pos (codes_valid a n hn)]
      rfl
    rw [String.toList_ofList, hback, ofCodes_codes]

/-- A name of 128 letters. -/
def name : String := String.ofList (List.replicate 128 'a')

def peer : String := "00112233445566778899aabbccddeeff"

def listen : SocketAddr := .v4 ⟨[127, 0, 0, 1], rfl⟩ 8080

def target : SocketAddr := .v4 (.four 10 0 0 1) 80

variable (i : Nat)

/-- The four decimal digits of a number below 10000. -/
def digits : List Nat := [i / 1000, i / 100 % 10, i / 10 % 10, i % 10]

def ruleId : String := String.ofList ((digits i).map Nat.digitChar)

/-- The rule with the number `i`. -/
def rule : TunnelRule := ⟨ruleId i, name, peer, listen, target, true, false⟩

/-- Settings with `n` tunnel rules. -/
def settings (n : Nat) : DesktopConfig :=
  { signalTls := none, fileLimits := ⟨0, 0⟩, autoResume := false, receiveSafetyMib := 64
    relayServer := none, schemaVersion := 11, signal := none, receiveDirectory := none
    sendConcurrency := 1, speedtestSeconds := 30, speedtestDirection := .both
    allowedForwardTargets := [], tunnelRules := (range n).map rule, remoteAuth := none
    trustedDevices := [] }

theorem digits_lt {i : Nat} (hi : i < 10000) : ∀ k ∈ digits i, k < 10 := by
  intro k hk
  simp only [digits, mem_cons, not_mem_nil, or_false] at hk
  omega

theorem validateRuleId_ruleId {i : Nat} (hi : i < 10000) : validateRuleId (ruleId i) = .ok () := by
  have hchar : ∀ k < 10, isAsciiAlphanumeric k.digitChar = true ∧ k.digitChar.utf8Size = 1 := by
    decide
  have hall : ((digits i).map Nat.digitChar).all (fun ch =>
      isAsciiAlphanumeric ch || ch == '-' || ch == '_') = true := by
    refine List.all_eq_true.mpr fun ch hch => ?_
    obtain ⟨k, hk, rfl⟩ := mem_map.mp hch
    simp [(hchar k (digits_lt hi k hk)).1]
  have hlen : utf8Len ((digits i).map Nat.digitChar) = 4 := by
    have hsizes : ∀ ch ∈ (digits i).map Nat.digitChar, ch.utf8Size = 1 := by
      intro ch hch
      obtain ⟨k, hk, rfl⟩ := mem_map.mp hch
      exact (hchar k (digits_lt hi k hk)).2
    unfold utf8Len
    rw [List.map_congr_left hsizes]
    rfl
  unfold validateRuleId ruleId
  rw [String.toList_ofList, hall, hlen]
  rfl

theorem ruleId_inj {i j : Nat} (hi : i < 10000) (hj : j < 10000) (h : ruleId i = ruleId j) :
    i = j := by
  have hchar : ∀ a < 10, ∀ b < 10, a.digitChar = b.digitChar → a = b := by decide
  have hmap := String.ofList_inj.mp h
  have hi' := digits_lt hi
  have hj' := digits_lt hj
  simp only [digits, List.map_cons, List.map_nil, List.cons.injEq, and_true] at hmap
  simp only [digits, mem_cons, not_mem_nil, or_false, forall_eq_or_imp, forall_eq] at hi' hj'
  obtain ⟨h₁, h₂, h₃, h₄⟩ := hmap
  have e₁ := hchar _ hi'.1 _ hj'.1 h₁
  have e₂ := hchar _ hi'.2.1 _ hj'.2.1 h₂
  have e₃ := hchar _ hi'.2.2.1 _ hj'.2.2.1 h₃
  have e₄ := hchar _ hi'.2.2.2 _ hj'.2.2.2 h₄
  omega

theorem rule_ok {i : Nat} (hi : i < 10000) : RuleOk hostText (rule i) where
  id := validateRuleId_ruleId hi
  name := by
    show validateRuleName name = .ok ()
    decide +kernel
  peer := by
    show ∃ node, nodeIdFromHex hostText peer = .ok node
    exact ⟨⟨[0x00, 0x11, 0x22, 0x33, 0x44, 0x55, 0x66, 0x77, 0x88, 0x99, 0xaa, 0xbb, 0xcc, 0xdd,
      0xee, 0xff], rfl⟩, by decide +kernel⟩
  listen := by
    show isLoopback listen.ip = true
    decide
  port := by
    show listen.port ≠ 0
    decide
  target := by
    show validateForwardTarget hostText target = .ok ()
    decide +kernel

theorem settings_valid {n : Nat} (hn : n ≤ 10000) : (settings n).validate hostText = .ok () := by
  have hrules : validateRules hostText [] ((range n).map rule) = .ok () := by
    refine validateRules_ok ?_ ?_ fun _ _ => by simp
    · intro r hr
      obtain ⟨i, hi, rfl⟩ := mem_map.mp hr
      exact rule_ok (Nat.lt_of_lt_of_le (mem_range.mp hi) hn)
    · rw [map_map]
      refine List.nodup_range.map_on ?_
      intro i hi j hj h
      exact ruleId_inj (Nat.lt_of_lt_of_le (mem_range.mp hi) hn)
        (Nat.lt_of_lt_of_le (mem_range.mp hj) hn) h
  show validateForwardConfiguration hostText [] ((range n).map rule) = .ok ()
  exact hrules

/-- One rule takes 210 bytes at least. -/
theorem le_rule_size : 210 ≤ prettySize 2 ((rule i).toValue hostText) := by
  have hname : stringSize name = 130 := by decide +kernel
  have hpeer : stringSize peer = 34 := by decide +kernel
  refine Nat.le_trans ?_ (fieldsSize_le_prettySize 2 _)
  have hsize : 210 ≤ fieldsSize 3 [("id", .str (ruleId i)), ("name", .str name),
      ("peer_node_id", .str peer), ("listen", .str (hostText.addr listen)),
      ("target", .str (hostText.addr target)), ("enabled", .bool true),
      ("auto_start", .bool false)] := by
    simp only [fieldsSize, prettySize, hname, hpeer]
    omega
  exact hsize

theorem settings_too_long {n : Nat} (hn : 5000 ≤ n) :
    maxConfigBytes < prettySize 0 ((settings n).toValue hostText) := by
  have hrules : ∀ v ∈ ((range n).map rule).map (TunnelRule.toValue hostText),
      210 ≤ prettySize 2 v := by
    intro v hv
    obtain ⟨r, hr, rfl⟩ := mem_map.mp hv
    obtain ⟨i, -, rfl⟩ := mem_map.mp hr
    exact le_rule_size i
  have hitems := mul_le_itemsSize hrules
  rw [List.length_map, List.length_map, List.length_range] at hitems
  have hfield : ("tunnel_rules", Value.arr (((range n).map rule).map
      (TunnelRule.toValue hostText))) ∈ (settings n).toFields hostText := by
    simp [DesktopConfig.toFields, DesktopConfig.lastFields, settings]
  calc maxConfigBytes < 210 * n := by unfold maxConfigBytes; omega
    _ ≤ itemsSize 2 (((range n).map rule).map (TunnelRule.toValue hostText)) := hitems
    _ ≤ prettySize 1 (.arr (((range n).map rule).map (TunnelRule.toValue hostText))) :=
      itemsSize_le_prettySize 1 _
    _ ≤ fieldsSize 1 ((settings n).toFields hostText) :=
      Nat.le_trans (Nat.le_add_left _ _) (prettySize_le_fieldsSize hfield)
    _ ≤ prettySize 0 ((settings n).toValue hostText) := fieldsSize_le_prettySize 0 _

end ConfigSample

open ConfigSample in
/-- Settings with 5000 tunnel rules, which are all valid, are written; they are never
    loaded again, and no settings can be written in their place. -/
theorem long_settings_lock_up : ((settings 5000).writeAtomic hostText) .absent [] =
        (.ok (), .file ((settings 5000).toText hostText), []) ∧
      (DesktopConfig.load hostText (.file ((settings 5000).toText hostText)) []).1 =
          .error (.corrupt "配置超过1MiB") ∧
      ∀ next : DesktopConfig, ∃ err, ((next.writeAtomic hostText)
        (.file ((settings 5000).toText hostText)) []).1 = .error err := by
  have hvalid : (settings 5000).validate hostText = .ok () := settings_valid (by omega)
  have hdecode : DesktopConfig.decode hostText
      ((settings 5000).toText hostText) = .error (.corrupt "配置超过1MiB") := by
    have hlong : hostText.len ((settings 5000).toText hostText) > maxConfigBytes :=
      settings_too_long (Nat.le_refl 5000)
    unfold DesktopConfig.decode
    rw [if_pos hlong]
    rfl
  refine ⟨?_, ?_, ?_⟩
  · unfold DesktopConfig.writeAtomic
    rw [hvalid]
    rfl
  · rw [DesktopConfig.load_file, hdecode]
  · intro next
    cases hnext : next.validate hostText with
    | error err =>
      refine ⟨err, ?_⟩
      unfold DesktopConfig.writeAtomic
      rw [hnext]
      rfl
    | ok _ =>
      have hrefused := DesktopConfig.writeAtomic_file hnext ((settings 5000).toText hostText)
      rw [hdecode] at hrefused
      exact ⟨_, hrefused⟩

open ConfigSample in
/-- Settings with one rule: they are loaded as they were. -/
theorem config_reloads_one_rule : DesktopConfig.load hostText
        (.file ((settings 1).toText hostText)) [] = (.ok (some (settings 1)),
        .file ((settings 1).toText hostText), []) := by
  have hvalid : (settings 1).validate hostText = .ok () := settings_valid (by omega)
  have hwrite : ((settings 1).writeAtomic hostText) .absent [] =
      (.ok (), .file ((settings 1).toText hostText), []) := by
    unfold DesktopConfig.writeAtomic
    rw [hvalid]
    rfl
  have hsize : hostText.len ((settings 1).toText hostText) ≤ maxConfigBytes := by
    decide +kernel
  have hplain : (settings 1).PlainAddrs := by
    refine ⟨by simp [settings], ?_, ?_⟩ <;> intro rule hrule <;>
      obtain ⟨i, -, rfl⟩ := mem_map.mp hrule <;> rfl
  exact (config_reloads hwrite).1.mpr ⟨hsize, hplain⟩

end P2pFile.Node
