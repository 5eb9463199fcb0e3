import Noeio.Common.HostInfo
import Noeio.Lib.IpText

/-!
# Addresses as text

`Display` and `FromStr` of `std::net::IpAddr` and `std::net::SocketAddr`. A socket address is
written without its IPv6 flow information, so only an address that has none is read back
(`SocketAddr.fromStr_display`).
-/

namespace Noeio

open Text Ipv4Addr Ipv6Addr

/-- Reads a text to its end. -/
def parseWith {α : Type} (read : List Char → Option (α × List Char)) (error : String) (s : String) :
    Except String α :=
  match read s.toList with
  | some (a, []) => .ok a
  | _ => .error error

/-- The characters of addresses. None of them separates addresses, fields or entries. -/
def AddrChar (c : Char) : Prop := (toDigit 16 c).isSome = true ∨ c ∈ ['.', ':', '[', ']', '%']

instance : DecidablePred AddrChar :=
  fun c => inferInstanceAs (Decidable ((toDigit 16 c).isSome = true ∨ c ∈ ['.', ':', '[', ']', '%']))

theorem addrChar_of_mem_digits {n : Nat} {c : Char} (h : c ∈ digits n) : AddrChar c :=
  Or.inl (isSome_toDigit_of_mem_digits h)

theorem addrChar_of_mem_addrChars {ip : Ipv4Addr} {c : Char} (h : c ∈ CidrText.addrChars ip) :
    AddrChar c := by
  rcases mem_addrChars h with h | rfl
  · exact Or.inl h
  · decide

theorem addrChar_of_mem_ipv6Chars {ip : Ipv6Addr} {c : Char} (h : c ∈ ipv6Chars ip) :
    AddrChar c := by
  rcases mem_ipv6Chars h with h | rfl | rfl
  · exact Or.inl h
  · decide
  · decide

namespace IpAddr

def display : IpAddr → String
  | .v4 addr => String.ofList (CidrText.addrChars addr)
  | .v6 addr => String.ofList (ipv6Chars addr)

def readIpAddr (cs : List Char) : Option (IpAddr × List Char) :=
  match readIpv4Addr cs with
  | some (addr, cs) => some (.v4 addr, cs)
  | none => (readIpv6Addr cs).map fun (addr, cs) => (.v6 addr, cs)

def fromStr : String → Except String IpAddr := parseWith readIpAddr "invalid IP address syntax"

theorem fromStr_display (ip : IpAddr) : fromStr ip.display = .ok ip := by
  cases ip with
  | v4 addr =>
    have hread : readIpv4Addr (CidrText.addrChars addr ++ []) = some (addr, []) :=
      readIpv4Addr_addrChars addr (by rintro c ⟨⟩)
    rw [List.append_nil] at hread
    simp [fromStr, parseWith, display, readIpAddr, hread]
  | v6 addr =>
    have hread := readIpv6Addr_ipv6Chars addr stops_nil
    rw [List.append_nil] at hread
    simp [fromStr, parseWith, display, readIpAddr, readIpv4Addr_ipv6Chars, hread]

theorem addrChar_of_mem_display {ip : IpAddr} {c : Char} (h : c ∈ ip.display.toList) :
    AddrChar c := by
  cases ip with
  | v4 addr => exact addrChar_of_mem_addrChars (by simpa [display] using h)
  | v6 addr => exact addrChar_of_mem_ipv6Chars (by simpa [display] using h)

end IpAddr

namespace SocketAddr

def display : SocketAddr → String
  | .v4 ip port => String.ofList (CidrText.addrChars ip ++ ':' :: digits port.toNat)
  | .v6 ip port _ scopeId =>
    let scope := if scopeId = 0 then [] else '%' :: digits scopeId.toNat
    String.ofList ('[' :: ipv6Chars ip ++ scope ++ ']' :: ':' :: digits port.toNat)

def readPort (cs : List Char) : Option (Nat × List Char) := do
  let cs ← readChar ':' cs
  readNumber 10 (2 ^ 16) none true cs

def readScopeId (cs : List Char) : Option (Nat × List Char) := do
  let cs ← readChar '%' cs
  readNumber 10 (2 ^ 32) none true cs

def readSocketAddrV4 (cs : List Char) : Option (SocketAddr × List Char) := do
  let (ip, cs) ← readIpv4Addr cs
  let (port, cs) ← readPort cs
  return (.v4 ip (.ofNat port), cs)

def readSocketAddrV6 (cs : List Char) : Option (SocketAddr × List Char) := do
  let cs ← readChar '[' cs
  let (ip, cs) ← readIpv6Addr cs
  let (scopeId, cs) := (readScopeId cs).getD (0, cs)
  let cs ← readChar ']' cs
  let (port, cs) ← readPort cs
  return (.v6 ip (.ofNat port) 0 (.ofNat scopeId), cs)

def readSocketAddr (cs : List Char) : Option (SocketAddr × List Char) :=
  match readSocketAddrV4 cs with
  | some found => some found
  | none => readSocketAddrV6 cs

def fromStr : String → Except String SocketAddr :=
  parseWith readSocketAddr "invalid socket address syntax"

/-- The address carries no IPv6 flow information. -/
def NoFlowinfo : SocketAddr → Prop
  | .v4 .. => True
  | .v6 _ _ flowinfo _ => flowinfo = 0

theorem readPort_digits (port : UInt16) :
    readPort (':' :: digits port.toNat) = some (port.toNat, []) := by
  have hread : readNumber 10 (2 ^ 16) none true (digits port.toNat ++ []) =
      some (port.toNat, []) :=
    readNumber_toDigits (by omega) (by omega) port.toNat_lt (by simp) (by rintro c ⟨⟩)
  rw [List.append_nil] at hread
  simpa [readPort] using hread

theorem noDigit_cons {c : Char} (h : toDigit 10 c = none) (rest : List Char) :
    NoDigit 10 (c :: rest) := by
  rintro d ⟨rfl⟩
  exact h

/-- The scope, which zero is not written for, up to the bracket. -/
theorem readScopeId_scope (scopeId : UInt32) (rest : List Char) :
    let scope := if scopeId = 0 then [] else '%' :: digits scopeId.toNat
    (readScopeId (scope ++ ']' :: rest)).getD (0, scope ++ ']' :: rest) =
      (scopeId.toNat, ']' :: rest) := by
  by_cases h : scopeId = 0
  · simp [h, readScopeId, readChar]
  · have hread : readNumber 10 (2 ^ 32) none true (digits scopeId.toNat ++ ']' :: rest) =
        some (scopeId.toNat, ']' :: rest) :=
      readNumber_toDigits (by omega) (by omega) scopeId.toNat_lt (by simp)
        (noDigit_cons (by decide) rest)
    have hscope : readScopeId ('%' :: (digits scopeId.toNat ++ ']' :: rest)) =
        some (scopeId.toNat, ']' :: rest) := by
      rw [readScopeId, readChar_cons]
      exact hread
    simp [h, hscope]

/-- An address without flow information is read as it was written. -/
theorem fromStr_display {addr : SocketAddr} (h : addr.NoFlowinfo) : fromStr addr.display = .ok addr := by
  cases addr with
  | v4 ip port =>
    have hcolon : NoDigit 10 (':' :: digits port.toNat) := noDigit_cons (by decide) _
    have hread := readIpv4Addr_addrChars ip hcolon
    simp [fromStr, parseWith, display, readSocketAddr, readSocketAddrV4, hread, readPort_digits]
  | v6 ip port flowinfo scopeId =>
    obtain rfl : flowinfo = 0 := h
    have hv4 : ∀ cs, readSocketAddrV4 ('[' :: cs) = none := by
      intro cs
      have hnone : readIpv4Addr ('[' :: cs) = none :=
        readIpv4Addr_of_noDigit (by rintro c ⟨rfl⟩; decide)
      simp [readSocketAddrV4, hnone]
    have hstops : Stops ((if scopeId = 0 then [] else '%' :: digits scopeId.toNat) ++
        ']' :: ':' :: digits port.toNat) := by
      split
      · exact stops_cons (by decide) (by decide) (by decide) _
      · exact stops_cons (by decide) (by decide) (by decide) _
    have hip := readIpv6Addr_ipv6Chars ip hstops
    have hscope := readScopeId_scope scopeId (':' :: digits port.toNat)
    simp only [fromStr, parseWith, display, String.toList_ofList, readSocketAddr]
    simp only [List.cons_append, List.append_assoc, hv4]
    simp [readSocketAddrV6, hip, hscope, readPort_digits]

example : (SocketAddr.v6 1 80 0 3).display = "[::1%3]:80" := by decide

example : fromStr "[::ffff:192.168.1.1]:080" = .ok (.v6 0xffffc0a80101 80 0 0) := by decide

theorem fromStr_empty : fromStr "" = .error "invalid socket address syntax" := rfl

theorem addrChar_of_mem_display {addr : SocketAddr} {c : Char} (h : c ∈ addr.display.toList) :
    AddrChar c := by
  cases addr with
  | v4 ip port =>
    simp only [display, String.toList_ofList, List.mem_append, List.mem_cons] at h
    rcases h with h | rfl | h
    · exact addrChar_of_mem_addrChars h
    · decide
    · exact addrChar_of_mem_digits h
  | v6 ip port flowinfo scopeId =>
    simp only [display, String.toList_ofList, List.mem_append, List.mem_cons] at h
    rcases h with ((rfl | h) | h) | rfl | rfl | h
    · decide
    · exact addrChar_of_mem_ipv6Chars h
    · split at h
      · cases h
      · rcases List.mem_cons.mp h with rfl | h
        · decide
        · exact addrChar_of_mem_digits h
    · decide
    · decide
    · exact addrChar_of_mem_digits h

theorem display_ne_empty {addr : SocketAddr} (h : addr.NoFlowinfo) : addr.display ≠ "" := by
  intro hempty
  have hread := fromStr_display h
  rw [hempty, fromStr_empty] at hread
  cases hread

end SocketAddr

end Noeio
