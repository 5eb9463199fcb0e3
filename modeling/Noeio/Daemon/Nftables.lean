import Noeio.Common.Report
import Noeio.Daemon.Nat
import Noeio.Lib.NfTables

/-!
# The nftables batch

The encoder of `noeio-net-route/src/nftables.rs`: the expressions of the rules, with the
attributes of those that are encoded by hand, and the batch that rebuilds the table `noeio`. What
the kernel makes of it is `NfTables`: it parses the batch (`parseBatch`), runs it as one
transaction and then runs the chains of the table on packets.

A list of expressions `Means` a condition on packets if the kernel accepts the list and lets
exactly these packets pass. Each of the functions that build expressions has its meaning, the
meanings compose (`Means.append`), and `batch_means_table` assembles them.
-/

namespace Noeio

namespace Nftables

open BigEndian

open NfTables hiding accept

/-! ## Expressions -/

def nfAccept : UInt32 := 1

def nftReg1 : UInt32 := 1

def nftaMasqFlags : UInt16 := 1

def nftaCtDreg : UInt16 := 1

def nftaCtKey : UInt16 := 2

def nftCtState : UInt32 := 0

def nftaRtDreg : UInt16 := 1

def nftaRtKey : UInt16 := 2

def nftRtTcpmss : UInt32 := 3

def nftaByteorderSreg : UInt16 := 1

def nftaByteorderDreg : UInt16 := 2

def nftaByteorderOp : UInt16 := 3

def nftaByteorderLen : UInt16 := 4

def nftaByteorderSize : UInt16 := 5

def nftByteorderHton : UInt32 := 1

def nftaExthdrType : UInt16 := 2

def nftaExthdrOffset : UInt16 := 3

def nftaExthdrLen : UInt16 := 4

def nftaExthdrOp : UInt16 := 6

def nftaExthdrSreg : UInt16 := 7

def nftExthdrOpTcpopt : UInt32 := 1

def tcpoptMaxseg : UInt8 := 2

def ctStateEstablishedRelated : UInt32 := 6

def payloadBaseNetwork : UInt32 := 1

def payloadBaseTransport : UInt32 := 2

def ipprotoTcp : UInt8 := 6

def tcpFlagSyn : UInt8 := 2

def reg1Be : List UInt8 := toBe32 nftReg1

inductive Register where
  | verdict
  | reg1

/-- An expression with its attributes, as it is sent. -/
inductive Expressions where
  | metadata (key : MetaKey) (destinationRegister : Register)
  | cmp (sourceRegister : Register) (op : CmpOp) (data : List UInt8)
  | payload (destinationRegister : Register) (base offset len : UInt32)
  | bitwise (sourceRegister destinationRegister : Register) (length : UInt32)
      (mask xor : List UInt8)
  | immediate (destinationRegister : Register) (verdict : UInt32)
  | other (expressionType : String) (attributes : Attributes)

def ifnameBytes (name : String) : List UInt8 := (asBytes name ++ List.replicate 16 0).take 16

def matchIfname (key : MetaKey) (name : String) : List Expressions :=
  [.metadata key .reg1, .cmp .reg1 .eq (ifnameBytes name)]

def mask (len : UInt8) : BitVec 32 :=
  if len = 0 then 0 else BitVec.allOnes 32 <<< (32 - len.toNat)

def matchSaddr (net : Ipv4Addr) (len : UInt8) : List Expressions :=
  let net := net &&& mask len
  [.payload .reg1 payloadBaseNetwork 12 4,
    .bitwise .reg1 .reg1 4 (toBe32 (UInt32.ofBitVec (mask len))) [0, 0, 0, 0],
    .cmp .reg1 .eq (toBe32 (UInt32.ofBitVec net))]

def accept : Expressions := .immediate .verdict nfAccept

def masquerade : Expressions := .other "masq" [(nftaMasqFlags, toBe32 0)]

section
variable (e : Endian)

def matchCtEstablishedRelated : List Expressions :=
  [.other "ct" [(nftaCtDreg, reg1Be), (nftaCtKey, toBe32 nftCtState)],
    -- the register holds the state in the byte order of the host
    .bitwise .reg1 .reg1 4 (e.native (toBe32 ctStateEstablishedRelated)) [0, 0, 0, 0],
    .cmp .reg1 .neq [0, 0, 0, 0]]

def tcpSynMssClamp : List Expressions :=
  [.metadata .l4proto .reg1,
    .cmp .reg1 .eq [ipprotoTcp],
    .payload .reg1 payloadBaseTransport 13 1,
    .bitwise .reg1 .reg1 1 [tcpFlagSyn] [0],
    .cmp .reg1 .neq [0],
    .other "rt" [(nftaRtDreg, reg1Be), (nftaRtKey, toBe32 nftRtTcpmss)],
    .other "byteorder"
      [(nftaByteorderSreg, reg1Be), (nftaByteorderDreg, reg1Be),
        (nftaByteorderOp, toBe32 nftByteorderHton), (nftaByteorderLen, toBe32 2),
        (nftaByteorderSize, toBe32 2)],
    .other "exthdr"
      [(nftaExthdrSreg, reg1Be), (nftaExthdrType, [tcpoptMaxseg]), (nftaExthdrOffset, toBe32 2),
        (nftaExthdrLen, toBe32 2), (nftaExthdrOp, toBe32 nftExthdrOpTcpopt)]]

end

/-! ## Messages -/

def nlmFRequest : UInt16 := 0x1

def nlmFAck : UInt16 := 0x4

def nlmFCreate : UInt16 := 0x400

def nlmFAppend : UInt16 := 0x800

inductive ControlMessage where
  | batchBegin
  | batchEnd

inductive NfTablesMessage where
  | newTable (table : String)
  | deleteTable (table : String)
  | newChain (table name : String) (policy : UInt32) (chainType : String) (hook : Hook)
      (priority : UInt32)
  | newRule (table chain : String) (expressions : List Expressions)

inductive NfPayload where
  | control (kind : ControlMessage)
  | tables (inner : NfTablesMessage)

structure NfMsg where
  flags : UInt16
  payload : NfPayload

def nf (inner : NfTablesMessage) (flags : UInt16) : NfMsg := ⟨nlmFRequest ||| flags, .tables inner⟩

def batchControl (kind : ControlMessage) : NfMsg := ⟨nlmFRequest, .control kind⟩

def table : String := "noeio"

def chainPostrouting : String := "postrouting"

def chainForward : String := "forward"

def chainMssclamp : String := "mssclamp"

def prioSrcnat : Int32 := 100

def prioFilter : Int32 := 0

def prioMangle : Int32 := -150

def newTable : NfMsg := nf (.newTable table) (nlmFCreate ||| nlmFAck)

def delTable : NfMsg := nf (.deleteTable table) nlmFAck

def newBaseChain (name chainType : String) (hook : Hook) (priority : Int32) : NfMsg :=
  nf (.newChain table name nfAccept chainType hook priority.toUInt32) (nlmFCreate ||| nlmFAck)

def newRule (chain : String) (exprs : List Expressions) : NfMsg :=
  nf (.newRule table chain exprs) (nlmFCreate ||| nlmFAppend ||| nlmFAck)

def buildBatch (e : Endian) (rules : Ruleset) : List NfMsg :=
  let (net, len) := rules.overlay
  [batchControl .batchBegin,
    delTable,
    newTable,
    newBaseChain chainPostrouting "nat" .postRouting prioSrcnat,
    newBaseChain chainForward "filter" .forward prioFilter,
    newRule chainPostrouting
      (matchSaddr net len ++ matchIfname .oifname rules.lanIf ++ [masquerade]),
    newRule chainForward
      (matchIfname .iifname rules.tunIf ++ matchIfname .oifname rules.lanIf ++ [accept]),
    newRule chainForward
      (matchIfname .iifname rules.lanIf ++ matchIfname .oifname rules.tunIf ++
        matchCtEstablishedRelated e ++ [accept])] ++
    (if rules.mssClamp then
      newBaseChain chainMssclamp "filter" .forward prioMangle ::
        [MetaKey.iifname, .oifname].map fun key =>
          newRule chainMssclamp (matchIfname key rules.tunIf ++ tcpSynMssClamp)
    else []) ++
    [batchControl .batchEnd]

/-! ## What the kernel reads -/

def Register.number : Register → Option Nat
  | .verdict => none
  | .reg1 => some nftReg1.toNat

def Expressions.parse : Expressions → Option Expr
  | .metadata key dreg => dreg.number.map fun dreg => .metadata key dreg
  | .cmp sreg op data => sreg.number.map fun sreg => .cmp op sreg data
  | .payload dreg base offset len =>
    dreg.number.bind fun dreg =>
      if base = 1 then some (.payload .network offset.toNat len.toNat dreg)
      else if base = 2 then some (.payload .transport offset.toNat len.toNat dreg)
      else none
  | .bitwise sreg dreg len mask xor =>
    sreg.number.bind fun sreg => dreg.number.map fun dreg => .bitwise sreg dreg len.toNat mask xor
  | .immediate .verdict code => some (.immediate code)
  | .immediate .reg1 _ => none
  | .other name attributes => NfTables.parse name attributes

def NfMsg.has (self : NfMsg) (flag : UInt16) : Bool := self.flags &&& flag != 0

def NfMsg.command (self : NfMsg) : NfTablesMessage → Option Command
  | .newTable table => some (.newTable table (self.has nlmFCreate))
  | .deleteTable table => some (.delTable table)
  | .newChain table name policy chainType hook priority =>
    some (.newChain table (self.has nlmFCreate)
      ⟨name, chainType, hook, priority.toInt32, policy, []⟩)
  | .newRule table chain exprs =>
    (exprs.mapM Expressions.parse).map fun rule =>
      .newRule table chain (self.has nlmFCreate) (self.has nlmFAppend) rule

/-- The commands up to the end of the batch. -/
def parseCommands : List NfMsg → Option (List Command)
  | [] => none
  | msg :: rest =>
    match msg.payload with
    | .tables inner => do
      let command ← msg.command inner
      let commands ← parseCommands rest
      return command :: commands
    | .control .batchEnd => if rest.isEmpty then some [] else none
    | .control .batchBegin => none

def parseBatch : List NfMsg → Option (List Command)
  | [] => none
  | msg :: rest =>
    match msg.payload with
    | .control .batchBegin => parseCommands rest
    | _ => none

/-- `NfSocket::batch`, with what the kernel does. -/
def NfSocket.batch (tables : Tables) (msgs : List NfMsg) : Option Tables :=
  (parseBatch msgs).bind tables.transact

/-- `NfSocket::apply`. The batch deletes the table, so the table is made sure to exist. -/
def NfSocket.apply (e : Endian) (tables : Tables) (rules : Ruleset) : Option Tables := do
  let tables ← NfSocket.batch tables
    [batchControl .batchBegin, newTable, batchControl .batchEnd]
  NfSocket.batch tables (buildBatch e rules)

/-! ## What the expressions mean -/

/-- The kernel accepts the expressions in every chain, and they let a packet pass exactly if `P`. -/
def Means (e : Endian) (exprs : List Expressions) (P : Packet → Prop) : Prop :=
  ∃ parsed, exprs.mapM Expressions.parse = some parsed ∧
    (∀ expr ∈ parsed, ∀ chain, expr.allowedIn chain = true) ∧ ∀ p, Tests e p parsed (P p)

theorem mapM_parse_append {exprs more : List Expressions} {parsed rest : List Expr}
    (h : exprs.mapM Expressions.parse = some parsed) (hmore : more.mapM Expressions.parse = some rest) :
    (exprs ++ more).mapM Expressions.parse = some (parsed ++ rest) := by
  rw [List.mapM_append, h, hmore]
  rfl

section
variable {e : Endian} {exprs more : List Expressions} {P Q : Packet → Prop}

theorem Means.append (h : Means e exprs P) (hmore : Means e more Q) :
    Means e (exprs ++ more) fun p => P p ∧ Q p := by
  obtain ⟨parsed, hparsed, hallowed, htests⟩ := h
  obtain ⟨rest, hrest, hallowed', htests'⟩ := hmore
  exact ⟨parsed ++ rest, mapM_parse_append hparsed hrest,
    List.forall_mem_append.mpr ⟨hallowed, hallowed'⟩, fun p => (htests p).append (htests' p)⟩

theorem Means.congr (h : Means e exprs P) (hiff : ∀ p, P p ↔ Q p) : Means e exprs Q := by
  obtain ⟨parsed, hparsed, hallowed, htests⟩ := h
  exact ⟨parsed, hparsed, hallowed, fun p => (htests p).congr (hiff p)⟩

end

/-- A name that an interface can have. -/
def IsName (name : String) : Prop := (asBytes name).length ≤ 15 ∧ 0 ∉ asBytes name

theorem toNat_of_isAlphanum {c : Char} (h : c.isAlphanum = true) : 0 < c.toNat ∧ c.toNat < 128 := by
  have hcases : (c.isUpper = true ∨ c.isLower = true) ∨ c.isDigit = true := by
    rw [← Bool.or_eq_true, ← Bool.or_eq_true]
    exact h
  rcases hcases with (h | h) | h
  · obtain ⟨hlow, hhigh⟩ : c.val ≥ 'A'.val ∧ c.val ≤ 'Z'.val := decide_eq_true_iff.mp h
    exact ⟨Nat.lt_of_lt_of_le (by decide) hlow, Nat.lt_of_le_of_lt hhigh (by decide)⟩
  · obtain ⟨hlow, hhigh⟩ := Bool.and_eq_true_iff.mp h
    exact ⟨Nat.lt_of_lt_of_le (by decide) (decide_eq_true_iff.mp hlow),
      Nat.lt_of_le_of_lt (decide_eq_true_iff.mp hhigh) (by decide)⟩
  · have hrange : 48 ≤ c.toNat ∧ c.toNat ≤ 57 := Char.isDigit_iff_toNat.mp h
    omega

theorem isName_of_checkIfname {name : String} (h : checkIfname name = .ok ()) : IsName name := by
  dsimp only [checkIfname] at h
  split at h
  · cases h
  · rename_i hvalid
    simp only [Bool.or_eq_true, not_or, decide_eq_true_eq, Bool.not_eq_true', List.all_eq_true,
      Bool.not_eq_false] at hvalid
    obtain ⟨⟨-, hlen⟩, hchars⟩ := hvalid
    have hascii : ∀ c ∈ name.toList, 0 < c.toNat ∧ c.toNat < 128 := by
      intro c hc
      have hc := hchars c hc
      simp only [beq_iff_eq] at hc
      rcases hc with ((hc | rfl) | rfl) | rfl
      · exact toNat_of_isAlphanum hc
      · decide
      · decide
      · decide
    refine ⟨?_, ?_⟩
    · rw [length_asBytes]
      exact Nat.not_lt.mp hlen
    · rw [asBytes_of_ascii fun c hc => (hascii c hc).2]
      intro hzero
      obtain ⟨c, hc, hbyte⟩ := List.mem_map.mp hzero
      have hcode := congrArg UInt8.toNat hbyte
      rw [UInt8.toNat_ofNat', UInt8.toNat_zero] at hcode
      have hbounds := hascii c hc
      omega

theorem ifnameBytes_eq {name : String} (h : IsName name) :
    ifnameBytes name = padName (asBytes name) := by
  have hlen := h.1
  rw [ifnameBytes, padName, List.take_append, List.take_of_length_le (by omega),
    List.take_replicate, Nat.min_eq_left (by omega)]

/-- The address is in the block: it agrees with `net` on the first `len` bits. -/
def Covers (net : Ipv4Addr) (len : UInt8) (addr : Ipv4Addr) : Prop :=
  net.toNat / 2 ^ (32 - len.toNat) = addr.toNat / 2 ^ (32 - len.toNat)

theorem mask_eq_netmask (net : Ipv4Addr) {len : UInt8} (h : len.toNat ≤ 32) :
    mask len = Ipv4Cidr.netmask ⟨net, len.toNat, h⟩ := by
  by_cases hzero : len = 0
  · subst hzero
    rfl
  · have hne : len.toNat ≠ 0 := fun h => hzero (UInt8.toNat_inj.mp h)
    rw [mask, if_neg hzero, Ipv4Cidr.netmask, if_neg hne]

theorem covers_iff_mask {net addr : Ipv4Addr} {len : UInt8} (h : len.toNat ≤ 32) :
    Covers net len addr ↔ addr &&& mask len = net &&& mask len := by
  have hcontains := Ipv4Cidr.containsAddr_iff (c := ⟨net, len.toNat, h⟩) (a := addr)
  rw [Covers, ← hcontains, mask_eq_netmask net h, Ipv4Cidr.containsAddr, beq_iff_eq,
    BitVec.and_comm, eq_comm, BitVec.and_comm addr]

section
variable {e : Endian}

theorem means_matchIfname {name : String} (h : IsName name) (key : MetaKey)
    (hkey : ∀ p : Packet, (p.metadata key).length = 16) :
    Means e (matchIfname key name) fun p => p.metadata key = padName (asBytes name) := by
  refine ⟨[.metadata key 1] ++ [.cmp .eq 1 (ifnameBytes name)], rfl, by simp [Expr.allowedIn],
    fun p => ?_⟩
  have hlen : ∀ bytes, some (p.metadata key) = some bytes →
      bytes.length = (ifnameBytes name).length := by
    rintro _ ⟨⟩
    rw [hkey, ifnameBytes_eq h, length_padName h.1]
  refine ((loads_metadata key 1).cmp .eq _ hlen).congr ?_
  simp [CmpOp.holds, ifnameBytes_eq h]

theorem means_iifname {name : String} (h : IsName name) :
    Means e (matchIfname .iifname name) fun p => p.iifname.val = asBytes name :=
  (means_matchIfname h .iifname fun p => length_padName p.iifname.property.1).congr fun p =>
    padName_inj p.iifname.property.2 h.2

theorem means_oifname {name : String} (h : IsName name) :
    Means e (matchIfname .oifname name) fun p => p.oifname.val = asBytes name :=
  (means_matchIfname h .oifname fun p => length_padName p.oifname.property.1).congr fun p =>
    padName_inj p.oifname.property.2 h.2

theorem means_matchSaddr (net : Ipv4Addr) {len : UInt8} (h : len.toNat ≤ 32) :
    Means e (matchSaddr net len) fun p => Covers net len p.saddr := by
  refine ⟨([.payload .network 12 4 1] ++
      [.bitwise 1 1 4 (toBe32 (UInt32.ofBitVec (mask len))) [0, 0, 0, 0]]) ++
      [.cmp .eq 1 (toBe32 (UInt32.ofBitVec (net &&& mask len)))], rfl, by simp [Expr.allowedIn],
    fun p => ?_⟩
  have hload := loads_payload (e := e) (p := p) .network 12 4 1
  rw [p.read_saddr] at hload
  have hmasked := hload.bitwise 1 (toBe32 (UInt32.ofBitVec (mask len))) [0, 0, 0, 0]
    (by rintro _ ⟨⟩; rfl)
  rw [Option.map_some, applyMask_toBe32] at hmasked
  refine (hmasked.cmp .eq _ (by rintro _ ⟨⟩; rfl)).congr
    (Iff.trans ?_ (covers_iff_mask h).symm)
  simp only [Option.some.injEq, exists_eq_left', CmpOp.holds, beq_iff_eq, toBe32_inj]
  exact UInt32.toBitVec_inj.symm

theorem means_matchCtEstablishedRelated :
    Means e (matchCtEstablishedRelated e) fun p => p.established = true ∨ p.related = true := by
  refine ⟨([.ctState 1] ++
      [.bitwise 1 1 4 (e.native (toBe32 ctStateEstablishedRelated)) [0, 0, 0, 0]]) ++
      [.cmp .neq 1 [0, 0, 0, 0]], rfl, by simp [Expr.allowedIn], fun p => ?_⟩
  have hlen : ∀ x : UInt32, (e.native (toBe32 x)).length = 4 := by
    intro x
    cases e <;> rfl
  have hmasked := (loads_ctState (e := e) (p := p) 1).bitwise 1
    (e.native (toBe32 ctStateEstablishedRelated)) [0, 0, 0, 0] (by rintro _ ⟨⟩; exact hlen _)
  rw [Option.map_some, applyMask_native] at hmasked
  refine (hmasked.cmp .neq [0, 0, 0, 0] (by rintro _ ⟨⟩; exact hlen _)).congr ?_
  have hzero : ∀ x : UInt32, e.native (toBe32 x) = [0, 0, 0, 0] ↔ x = 0 := by
    intro x
    have hbytes : e.native (toBe32 0) = [0, 0, 0, 0] := by cases e <;> rfl
    rw [← hbytes, native_inj, toBe32_inj]
  have hbits : p.ctState &&& ctStateEstablishedRelated = (p.ctState &&& 2) ||| (p.ctState &&& 4) :=
    UInt32.toBitVec_inj.mp (BitVec.and_or_distrib_left (y := 2) (z := 4))
  simp only [Option.some.injEq, exists_eq_left', CmpOp.holds, bne_iff_ne, ne_eq, hzero, hbits,
    UInt32.or_eq_zero_iff, Packet.established, Packet.related, not_and_or]

/-- TCP with the flag SYN set. -/
def IsSyn (p : Packet) : Prop := ∃ flags, p.tcpFlags = some flags ∧ flags &&& tcpFlagSyn ≠ 0

/-- The clamp of a TCP header. -/
def clampTo (p : Packet) : Effect := .setTcpOption tcpoptMaxseg 2 (toBe16 p.tcpMss)

/-- The test of the clamp and what the clamp does, as the kernel reads them. -/
def synTest : List Expr :=
  [.metadata .l4proto 1] ++ [.cmp .eq 1 [ipprotoTcp]] ++
    ([.payload .transport 13 1 1] ++ [.bitwise 1 1 1 [tcpFlagSyn] [0]] ++ [.cmp .neq 1 [0]])

def setMss : List Expr :=
  ([.rtTcpMss 1] ++ [.byteorder 1 1 2 2]) ++ [.exthdr 1 tcpoptMaxseg 2 2]

theorem parse_tcpSynMssClamp : tcpSynMssClamp.mapM Expressions.parse = some (synTest ++ setMss) :=
  rfl

theorem tests_synTest (p : Packet) : Tests e p synTest (IsSyn p) := by
  have hproto := (loads_metadata (e := e) (p := p) .l4proto 1).cmp .eq [ipprotoTcp]
    (by rintro _ ⟨⟩; rfl)
  have hload := loads_payload (e := e) (p := p) .transport 13 1 1
  rw [p.read_transport] at hload
  have hone : ∀ bytes, (p.transport[13]?.map fun byte => [byte]) = some bytes → bytes.length = 1 := by
    intro bytes hbytes
    obtain ⟨byte, -, rfl⟩ := Option.map_eq_some_iff.mp hbytes
    rfl
  have hmasked := hload.bitwise 1 [tcpFlagSyn] [0] hone
  have hflags := hmasked.cmp .neq [0] (by
    intro bytes hbytes
    obtain ⟨_, hread, rfl⟩ := Option.map_eq_some_iff.mp hbytes
    obtain ⟨byte, -, rfl⟩ := Option.map_eq_some_iff.mp hread
    rfl)
  refine (hproto.append hflags).congr ?_
  rw [IsSyn, Packet.tcpFlags]
  by_cases htcp : p.l4proto = 6
  · rw [if_pos htcp]
    cases p.transport[13]? with
    | none => simp
    | some flags => simp [Packet.metadata, htcp, CmpOp.holds, applyMask, ipprotoTcp]
  · rw [if_neg htcp]
    simp [Packet.metadata, htcp, CmpOp.holds, ipprotoTcp]

theorem acts_clamp {exprs : List Expr} {P : Prop} {p : Packet} (h : Tests e p exprs P) :
    Acts e p (exprs ++ (synTest ++ setMss)) (P ∧ IsSyn p) [clampTo p] none := by
  rw [← List.append_assoc]
  exact (h.append (tests_synTest p)).exthdr (loads_rtTcpMss (e := e) (p := p) 1).byteorder

end

/-! ## The batch -/

section
variable {flags : UInt16} {rest : List NfMsg} {commands : List Command}

theorem parseCommands_nf {inner : NfTablesMessage} {command : Command}
    (h : (nf inner flags).command inner = some command)
    (hrest : parseCommands rest = some commands) :
    parseCommands (nf inner flags :: rest) = some (command :: commands) := by
  have hmsg : (nf inner flags).payload = .tables inner := rfl
  rw [parseCommands, hmsg]
  simp [h, hrest]

theorem has_nf (inner : NfTablesMessage) (flags flag : UInt16) :
    (nf inner flags).has flag = ((nlmFRequest ||| flags) &&& flag != 0) := rfl

theorem has_create (inner : NfTablesMessage) :
    (nf inner (nlmFCreate ||| nlmFAck)).has nlmFCreate = true := by
  rw [has_nf]
  decide

theorem has_create_append (inner : NfTablesMessage) :
    (nf inner (nlmFCreate ||| nlmFAppend ||| nlmFAck)).has nlmFCreate = true ∧
      (nf inner (nlmFCreate ||| nlmFAppend ||| nlmFAck)).has nlmFAppend = true := by
  rw [has_nf, has_nf]
  decide

theorem parseCommands_newTable (hrest : parseCommands rest = some commands) :
    parseCommands (newTable :: rest) = some (.newTable table true :: commands) := by
  refine parseCommands_nf ?_ hrest
  rw [NfMsg.command, has_create]

theorem parseCommands_newBaseChain {name chainType : String} {hook : Hook} {priority : Int32}
    (hrest : parseCommands rest = some commands) :
    parseCommands (newBaseChain name chainType hook priority :: rest) =
      some (.newChain table true ⟨name, chainType, hook, priority, nfAccept, []⟩ :: commands) := by
  refine parseCommands_nf ?_ hrest
  rw [NfMsg.command, has_create]
  -- a priority is sent as an unsigned number and read back as a signed one
  rfl

theorem parseCommands_newRule {chain : String} {exprs : List Expressions} {rule : List Expr}
    (h : exprs.mapM Expressions.parse = some rule) (hrest : parseCommands rest = some commands) :
    parseCommands (newRule chain exprs :: rest) =
      some (.newRule table chain true true rule :: commands) := by
  refine parseCommands_nf ?_ hrest
  obtain ⟨hcreate, happend⟩ := has_create_append (.newRule table chain exprs)
  rw [NfMsg.command, hcreate, happend, h]
  rfl

end

/-! ### The table -/

def postroutingChain (rules : List (List Expr)) : Chain :=
  ⟨chainPostrouting, "nat", .postRouting, prioSrcnat, nfAccept, rules⟩

def forwardChain (rules : List (List Expr)) : Chain :=
  ⟨chainForward, "filter", .forward, prioFilter, nfAccept, rules⟩

def mssclampChain (rules : List (List Expr)) : Chain :=
  ⟨chainMssclamp, "filter", .forward, prioMangle, nfAccept, rules⟩

section
variable (rules : List (List Expr))

@[simp] theorem postroutingChain_name : (postroutingChain rules).name = chainPostrouting := rfl

@[simp] theorem forwardChain_name : (forwardChain rules).name = chainForward := rfl

@[simp] theorem mssclampChain_name : (mssclampChain rules).name = chainMssclamp := rfl

end

@[simp] theorem chainPostrouting_ne_forward : chainPostrouting ≠ chainForward := by decide

@[simp] theorem chainPostrouting_ne_mssclamp : chainPostrouting ≠ chainMssclamp := by decide

@[simp] theorem chainForward_ne_mssclamp : chainForward ≠ chainMssclamp := by decide

/-- The chains of the table, given their rules as the kernel has read them. -/
def chainsOf (masq out back iif oif : List Expr) (mssClamp : Bool) : List Chain :=
  [postroutingChain [masq], forwardChain [out, back]] ++
    if mssClamp then [mssclampChain [iif, oif]] else []

/-- What the batch asks for, given the rules as the kernel reads them. -/
def commandsOf (masq out back iif oif : List Expr) (mssClamp : Bool) : List Command :=
  [.delTable table,
    .newTable table true,
    .newChain table true (postroutingChain []),
    .newChain table true (forwardChain []),
    .newRule table chainPostrouting true true masq,
    .newRule table chainForward true true out,
    .newRule table chainForward true true back] ++
    if mssClamp then
      [.newChain table true (mssclampChain []),
        .newRule table chainMssclamp true true iif,
        .newRule table chainMssclamp true true oif]
    else []

section
variable {masq out back iif oif : List Expr}

theorem parseBatch_buildBatch (e : Endian) (rules : Ruleset)
    (hmasq : (matchSaddr rules.overlay.1 rules.overlay.2 ++ matchIfname .oifname rules.lanIf ++
      [masquerade]).mapM Expressions.parse = some masq)
    (hout : (matchIfname .iifname rules.tunIf ++ matchIfname .oifname rules.lanIf ++
      [accept]).mapM Expressions.parse = some out)
    (hback : (matchIfname .iifname rules.lanIf ++ matchIfname .oifname rules.tunIf ++
      matchCtEstablishedRelated e ++ [accept]).mapM Expressions.parse = some back)
    (hiif : (matchIfname .iifname rules.tunIf ++ tcpSynMssClamp).mapM Expressions.parse = some iif)
    (hoif : (matchIfname .oifname rules.tunIf ++ tcpSynMssClamp).mapM Expressions.parse = some oif) :
    parseBatch (buildBatch e rules) = some (commandsOf masq out back iif oif rules.mssClamp) := by
  have hend : parseCommands [batchControl .batchEnd] = some [] := rfl
  have hclamp : parseCommands ((if rules.mssClamp then
        newBaseChain chainMssclamp "filter" .forward prioMangle ::
          [MetaKey.iifname, .oifname].map fun key =>
            newRule chainMssclamp (matchIfname key rules.tunIf ++ tcpSynMssClamp)
      else []) ++ [batchControl .batchEnd]) =
      some (if rules.mssClamp then
        [.newChain table true (mssclampChain []),
          .newRule table chainMssclamp true true iif,
          .newRule table chainMssclamp true true oif]
      else []) := by
    cases rules.mssClamp with
    | false => exact hend
    | true =>
      exact parseCommands_newBaseChain (parseCommands_newRule hiif (parseCommands_newRule hoif hend))
  exact parseCommands_nf rfl <| parseCommands_newTable <| parseCommands_newBaseChain <|
    parseCommands_newBaseChain <| parseCommands_newRule hmasq <| parseCommands_newRule hout <|
    parseCommands_newRule hback hclamp

theorem transact_commandsOf {tables : Tables} (htable : (tables table).isSome) (mssClamp : Bool)
    (hmasq : ∀ chain : Chain, chain.kind = "nat" ∧ chain.hook = .postRouting →
      ∀ expr ∈ masq, expr.allowedIn chain = true)
    (hforward : ∀ chain : Chain, chain.hook = .forward →
      ∀ rule ∈ [out, back, iif, oif], ∀ expr ∈ rule, expr.allowedIn chain = true) :
    tables.transact (commandsOf masq out back iif oif mssClamp) =
      some (Function.update tables table (some (chainsOf masq out back iif oif mssClamp))) := by
  obtain ⟨old, hold⟩ := Option.isSome_iff_exists.mp htable
  have hmasq := hmasq (postroutingChain []) ⟨rfl, rfl⟩
  have hout : ∀ expr ∈ out, expr.allowedIn (forwardChain []) = true :=
    hforward (forwardChain []) rfl out (by simp)
  have hback : ∀ expr ∈ back, expr.allowedIn (forwardChain [out]) = true :=
    hforward (forwardChain [out]) rfl back (by simp)
  refine (Tables.transact_cons (Tables.apply_delTable tables hold) _).trans ?_
  refine (Tables.transact_cons (Tables.apply_newTable tables) _).trans ?_
  refine (Tables.transact_cons (Tables.apply_newChain tables rfl (by simp)) _).trans ?_
  refine (Tables.transact_cons (Tables.apply_newChain tables rfl (by simp)) _).trans ?_
  refine (Tables.transact_cons (Tables.apply_newRule tables [] [forwardChain []]
    (postroutingChain []) (by simp) (by simp [chainPostrouting_ne_forward.symm]) hmasq) _).trans ?_
  refine (Tables.transact_cons (Tables.apply_newRule tables [postroutingChain [masq]] []
    (forwardChain []) (by simp) (by simp) hout) _).trans ?_
  refine (Tables.transact_cons (Tables.apply_newRule tables [postroutingChain [masq]] []
    (forwardChain [out]) (by simp) (by simp) hback) _).trans ?_
  cases mssClamp with
  | false => rfl
  | true =>
    have hiif : ∀ expr ∈ iif, expr.allowedIn (mssclampChain []) = true :=
      hforward (mssclampChain []) rfl iif (by simp)
    have hoif : ∀ expr ∈ oif, expr.allowedIn (mssclampChain [iif]) = true :=
      hforward (mssclampChain [iif]) rfl oif (by simp)
    refine (Tables.transact_cons (Tables.apply_newChain tables rfl (by simp)) _).trans ?_
    refine (Tables.transact_cons (Tables.apply_newRule tables
      [postroutingChain [masq], forwardChain [out, back]] [] (mssclampChain []) (by simp) (by simp)
      hiif) _).trans ?_
    refine (Tables.transact_cons (Tables.apply_newRule tables
      [postroutingChain [masq], forwardChain [out, back]] [] (mssclampChain [iif]) (by simp)
      (by simp) hoif) _).trans ?_
    rfl

end

/-! ### The meaning -/

section
variable {e : Endian} {exprs : List Expressions} {P : Packet → Prop}

/-- A rule is a test and what it does to a packet that passes. The kernel accepts it in the chains
in which it accepts the second part. -/
theorem Means.rule (h : Means e exprs P) {tail : List Expressions} (rest : List Expr)
    {C : Chain → Prop} {Q : Packet → Prop} {effects : Packet → List Effect}
    {verdict : Option Verdict} (hparse : tail.mapM Expressions.parse = some rest)
    (hallowed : ∀ chain, C chain → ∀ expr ∈ rest, expr.allowedIn chain = true)
    (hacts : ∀ parsed p, Tests e p parsed (P p) →
      Acts e p (parsed ++ rest) (Q p) (effects p) verdict) :
    ∃ rule, (exprs ++ tail).mapM Expressions.parse = some rule ∧
      (∀ chain, C chain → ∀ expr ∈ rule, expr.allowedIn chain = true) ∧
      ∀ p, Acts e p rule (Q p) (effects p) verdict := by
  obtain ⟨parsed, hparsed, hanywhere, htests⟩ := h
  refine ⟨parsed ++ rest, mapM_parse_append hparsed hparse, ?_, fun p => hacts parsed p (htests p)⟩
  intro chain hchain
  exact List.forall_mem_append.mpr ⟨fun expr hexpr => hanywhere expr hexpr chain,
    hallowed chain hchain⟩

/-- A rule that accepts. -/
theorem Means.accept (h : Means e exprs P) :
    ∃ rule, (exprs ++ [Nftables.accept]).mapM Expressions.parse = some rule ∧
      (∀ chain : Chain, chain.hook = .forward → ∀ expr ∈ rule, expr.allowedIn chain = true) ∧
      ∀ p, Acts e p rule (P p) [] (some NfTables.accept) := by
  refine h.rule [.immediate nfAccept] rfl ?_ fun parsed p htests => htests.immediate _
  intro chain _ expr hexpr
  rw [List.mem_singleton.mp hexpr]
  rfl

/-- A rule that masquerades. -/
theorem Means.masquerade (h : Means e exprs P) :
    ∃ rule, (exprs ++ [Nftables.masquerade]).mapM Expressions.parse = some rule ∧
      (∀ chain : Chain, chain.kind = "nat" ∧ chain.hook = .postRouting →
        ∀ expr ∈ rule, expr.allowedIn chain = true) ∧
      ∀ p, Acts e p rule (P p) [.masquerade 0] (some NfTables.accept) := by
  refine h.rule [.masq 0] rfl ?_ fun parsed p htests => htests.masq 0
  intro chain hchain expr hexpr
  rw [List.mem_singleton.mp hexpr]
  exact decide_eq_true hchain

/-- A rule that clamps. -/
theorem Means.clamp (h : Means e exprs P) :
    ∃ rule, (exprs ++ tcpSynMssClamp).mapM Expressions.parse = some rule ∧
      (∀ chain : Chain, chain.hook = .forward → ∀ expr ∈ rule, expr.allowedIn chain = true) ∧
      ∀ p, Acts e p rule (P p ∧ IsSyn p) [clampTo p] none := by
  refine h.rule (synTest ++ setMss) parse_tcpSynMssClamp ?_ fun parsed p htests => acts_clamp htests
  intro chain hhook
  simp [synTest, setMss, Expr.allowedIn, hhook]

end

theorem batch_newTable (tables : Tables) :
    ∃ next, NfSocket.batch tables [batchControl .batchBegin, newTable, batchControl .batchEnd] =
        some next ∧ (next table).isSome ∧
      ∀ chains, Function.update next table chains = Function.update tables table chains := by
  have hbatch : NfSocket.batch tables [batchControl .batchBegin, newTable, batchControl .batchEnd] =
      (tables.apply (.newTable table true)).bind fun next => next.transact [] := rfl
  rw [hbatch]
  cases htable : tables table with
  | some old => exact ⟨tables, by simp [Tables.apply, htable, Tables.transact], by simp [htable],
      fun chains => rfl⟩
  | none =>
    refine ⟨Function.update tables table (some []), ?_, by simp, fun chains => by simp⟩
    simp [Tables.apply, htable, Tables.transact]

theorem isName_of_new {overlay : Ipv4Addr × UInt8} {lanIf tunIf : String} {mssClamp : Bool}
    {rules : Ruleset} (h : Ruleset.new overlay lanIf tunIf mssClamp = .ok rules) :
    rules = ⟨overlay, lanIf, tunIf, mssClamp⟩ ∧ IsName lanIf ∧ IsName tunIf ∧
      overlay.2.toNat ≤ 32 := by
  unfold Ruleset.new at h
  cases hlan : checkIfname lanIf with
  | error err =>
    rw [hlan] at h
    cases h
  | ok _ =>
    cases htun : checkIfname tunIf with
    | error err =>
      rw [hlan, htun] at h
      cases h
    | ok _ =>
      rw [hlan, htun] at h
      by_cases hlen : overlay.2 > 32
      · rw [if_pos hlen] at h
        cases h
      · rw [if_neg hlen] at h
        cases h
        exact ⟨rfl, isName_of_checkIfname hlan, isName_of_checkIfname htun,
          UInt8.le_iff_toNat_le.mp (UInt8.not_lt.mp hlen)⟩

/-- What `apply` makes of the table `noeio`, for any rule set that `Ruleset::new` accepts and on
any host. The kernel accepts the batch and no other table changes. The table has the documented
chains, and on every packet these do what the documentation says: the only effect in
`postrouting` is to masquerade, and it takes place exactly for a source in the overlay that leaves
by the LAN; `forward` accepts exactly what goes from the tunnel to the LAN, and what goes back
on an established or related connection; the only effect in `mssclamp` is the clamp, exactly if
the chain was asked for and the packet is a TCP SYN that enters or leaves by the tunnel. -/
theorem batch_means_table (e : Endian) {overlay : Ipv4Addr × UInt8} {lanIf tunIf : String}
    {mssClamp : Bool} {rules : Ruleset}
    (h : Ruleset.new overlay lanIf tunIf mssClamp = .ok rules) (tables : Tables) :
    ∃ chains, NfSocket.apply e tables rules = some (Function.update tables "noeio" (some chains)) ∧
      chains.map (fun c => (c.name, c.kind, c.hook, c.priority)) =
        [("postrouting", "nat", .postRouting, 100), ("forward", "filter", .forward, 0)] ++
          (if mssClamp then [("mssclamp", "filter", .forward, -150)] else []) ∧
      ∀ p regs,
        (∀ a, a ∈ (runChain e p chains "postrouting" regs).effects ↔
          a = .masquerade 0 ∧ Covers overlay.1 overlay.2 p.saddr ∧
            p.oifname.val = asBytes lanIf) ∧
        ((runChain e p chains "forward" regs).verdict = some NfTables.accept ↔
          (p.iifname.val = asBytes tunIf ∧ p.oifname.val = asBytes lanIf) ∨
            (p.iifname.val = asBytes lanIf ∧ p.oifname.val = asBytes tunIf ∧
              (p.established = true ∨ p.related = true))) ∧
        (∀ a, a ∈ (runChain e p chains "mssclamp" regs).effects ↔
          a = clampTo p ∧ mssClamp = true ∧ IsSyn p ∧
            (p.iifname.val = asBytes tunIf ∨ p.oifname.val = asBytes tunIf)) := by
  obtain ⟨rfl, hlan, htun, hlen⟩ := isName_of_new h
  obtain ⟨masq, hmasq, hmasqAllowed, hmasqActs⟩ :=
    ((means_matchSaddr overlay.1 hlen).append (means_oifname (e := e) hlan)).masquerade
  obtain ⟨out, hout, houtAllowed, houtActs⟩ :=
    ((means_iifname htun).append (means_oifname (e := e) hlan)).accept
  obtain ⟨back, hback, hbackAllowed, hbackActs⟩ :=
    (((means_iifname hlan).append (means_oifname htun)).append
      (means_matchCtEstablishedRelated (e := e))).accept
  obtain ⟨iif, hiif, hiifAllowed, hiifActs⟩ := (means_iifname (e := e) htun).clamp
  obtain ⟨oif, hoif, hoifAllowed, hoifActs⟩ := (means_oifname (e := e) htun).clamp
  refine ⟨chainsOf masq out back iif oif mssClamp, ?_, ?_, ?_⟩
  · obtain ⟨next, hnext, htable, hupdate⟩ := batch_newTable tables
    rw [NfSocket.apply, hnext, Option.bind_eq_bind, Option.bind_some, NfSocket.batch,
      parseBatch_buildBatch e ⟨overlay, lanIf, tunIf, mssClamp⟩ hmasq hout hback hiif hoif]
    refine (transact_commandsOf htable mssClamp hmasqAllowed ?_).trans (congrArg some (hupdate _))
    intro chain hhook rule hrule expr hexpr
    simp only [List.mem_cons, List.not_mem_nil, or_false] at hrule
    rcases hrule with rfl | rfl | rfl | rfl
    · exact houtAllowed chain hhook expr hexpr
    · exact hbackAllowed chain hhook expr hexpr
    · exact hiifAllowed chain hhook expr hexpr
    · exact hoifAllowed chain hhook expr hexpr
  · cases mssClamp <;> rfl
  · intro p regs
    refine ⟨fun a => ?_, ?_, fun a => ?_⟩
    · refine ((hmasqActs p).effects_last regs).trans ?_
      rw [List.mem_singleton, and_comm]
    · refine ((houtActs p).verdict_cons ((hbackActs p).verdict_cons (Q := False) fun regs => ?_)
        regs).trans ?_
      · simp [runRules]
      · rw [or_false, and_assoc]
    · cases mssClamp with
      | false =>
        refine iff_of_false List.not_mem_nil ?_
        rintro ⟨-, hclamp, -⟩
        cases hclamp
      | true =>
        refine ((hiifActs p).effects_cons (fun regs => (hoifActs p).effects_last regs) regs).trans ?_
        rw [List.mem_singleton]
        tauto

namespace Sample

/-- The address of the overlay has host bits. -/
def rules : Ruleset := ⟨(.ofOctets 10 255 0 7, 16), "eth0", "noeio0", true⟩

/-- From 10.255.3.4 in the overlay, leaving by the LAN. -/
def packet : Packet where
  network := [0x45, 0, 0, 40, 0, 0, 0, 0, 64, 6, 0, 0, 10, 255, 3, 4, 192, 168, 1, 2]
  transport := [0xC0, 0, 0, 80, 0, 0, 0, 0, 0, 0, 0, 0, 0x50, 0x02, 0, 0, 0, 0, 0, 0]
  iifname := ⟨asBytes "noeio0", by decide +kernel⟩
  oifname := ⟨asBytes "eth0", by decide +kernel⟩
  l4proto := 6
  ctState := 8
  tcpMss := 1380
  length_network := by decide

theorem packet_masqueraded :
    ∃ chains, NfSocket.apply .little (fun _ => none) rules =
        some (Function.update (fun _ => none) "noeio" (some chains)) ∧
      .masquerade 0 ∈ (runChain .little packet chains "postrouting" fun _ => 0).effects := by
  have haccepted : Ruleset.new rules.overlay rules.lanIf rules.tunIf rules.mssClamp = .ok rules := by
    rfl
  have hcovers : Covers rules.overlay.1 rules.overlay.2 packet.saddr := by
    unfold Covers
    decide
  obtain ⟨chains, happly, -, hmeans⟩ := batch_means_table .little haccepted fun _ => none
  refine ⟨chains, happly, ?_⟩
  exact ((hmeans packet fun _ => 0).1 (.masquerade 0)).mpr ⟨rfl, hcovers, rfl⟩

end Sample

end Nftables

end Noeio
