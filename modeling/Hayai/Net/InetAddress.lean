import Hayai.Utils.DottedQuad

/-! # Addresses

`InetAddress` is a `sockaddr_in`. Its text is compared where the program prints and reads
addresses, its bytes where it compares them; the two agree. A text that is no address is
not reported: the constructor leaves the zero that `memset` has put there.
-/

namespace Hayai

/-- The bytes are in network order. Those that no member looks at are left out. -/
structure SockaddrIn where
  sinFamily : UInt8
  sinPort : UInt8 × UInt8
  sinAddr : Inet.InAddr
  deriving DecidableEq, Repr

def SockaddrIn.zero : SockaddrIn := ⟨0, (0, 0), ⟨0, 0, 0, 0⟩⟩

def afInet : UInt8 := 2

def inaddrAny : UInt32 := 0

def inaddrLoopback : UInt32 := 0x7f000001

/-- `c_str()` as a C function reads it. -/
def cStr (s : String) : List Char := s.toList.takeWhile (· ≠ Char.ofNat 0)

structure InetAddress where
  addr : SockaddrIn
  deriving Repr

namespace InetAddress

def ofPort (port : UInt16) (loopback : Bool) : InetAddress where
  addr := { SockaddrIn.zero with
    sinFamily := afInet
    sinAddr := Inet.htonl (if loopback then inaddrLoopback else inaddrAny)
    sinPort := Inet.htons port }

/-- The answer of `inet_pton` is ignored; it writes an address only if it finds one. -/
def ofIp (ip : String) (port : UInt16) : InetAddress :=
  let addr := { SockaddrIn.zero with sinFamily := afInet, sinPort := Inet.htons port }
  match Inet.pton (cStr ip) with
  | some sinAddr => ⟨{ addr with sinAddr }⟩
  | none => ⟨addr⟩

def toIp (a : InetAddress) : String := String.ofList (Inet.ntop a.addr.sinAddr)

def port (a : InetAddress) : UInt16 := Inet.ntohs a.addr.sinPort

def toIpPort (a : InetAddress) : String := a.toIp ++ ":" ++ toString a.port.toNat

def beq (a rhs : InetAddress) : Bool :=
  a.addr.sinFamily == rhs.addr.sinFamily && a.addr.sinPort == rhs.addr.sinPort &&
    a.addr.sinAddr == rhs.addr.sinAddr

instance : BEq InetAddress := ⟨beq⟩

theorem beq_iff {a b : InetAddress} : (a == b) = true ↔ a.addr = b.addr := by
  show (_ && _ && _) = true ↔ _
  rcases a with ⟨⟨family, port, addr⟩⟩
  rcases b with ⟨⟨family', port', addr'⟩⟩
  simp [and_assoc]

/-! ## Texts -/

theorem toIp_inj {a b : InetAddress} : a.toIp = b.toIp ↔ a.addr.sinAddr = b.addr.sinAddr := by
  constructor
  · intro h
    exact Inet.ntop_injective (String.ofList_inj.1 h)
  · intro h
    rw [toIp, toIp, h]

theorem port_inj {a b : InetAddress} : a.port = b.port ↔ a.addr.sinPort = b.addr.sinPort := by
  constructor
  · intro h
    rw [← Inet.htons_ntohs a.addr.sinPort, ← Inet.htons_ntohs b.addr.sinPort]
    exact congrArg Inet.htons h
  · intro h
    rw [port, port, h]

theorem toList_toIpPort (a : InetAddress) : a.toIpPort.toList =
    Inet.ntop a.addr.sinAddr ++ ':' :: Nat.toDigits 10 a.port.toNat := by
  simp [toIpPort, toIp]

theorem toIpPort_inj {a b : InetAddress} :
    a.toIpPort = b.toIpPort ↔ a.toIp = b.toIp ∧ a.port = b.port := by
  constructor
  · intro h
    have hlist := congrArg String.toList h
    rw [toList_toIpPort, toList_toIpPort, List.append_cons_inj_of_notMem
      (Inet.colon_notMem_ntop _) (Inet.colon_notMem_toDigits _)] at hlist
    refine ⟨toIp_inj.2 (Inet.ntop_injective hlist.1), UInt16.toNat_inj.1 ?_⟩
    have hvalue := congrArg (Nat.ofDigitChars 10 · 0) hlist.2.2
    simpa [Nat.ofDigitChars_ten_toDigits] using hvalue
  · rintro ⟨hip, hport⟩
    rw [toIpPort, toIpPort, hip, hport]

/-- Two addresses of one family are equal if and only if they are printed alike. -/
theorem beq_iff_toIpPort (a b : InetAddress) :
    (a == b) = true ↔ a.addr.sinFamily = b.addr.sinFamily ∧ a.toIpPort = b.toIpPort := by
  rw [beq_iff, toIpPort_inj, toIp_inj, port_inj]
  rcases a with ⟨⟨family, port, addr⟩⟩
  rcases b with ⟨⟨family', port', addr'⟩⟩
  simp [and_comm]

/-- The text of an address gives that address, and any other text the one of all
interfaces. -/
theorem ofIp_beq_iff (ip : String) (port : UInt16) (a : InetAddress) :
    (ofIp ip port == a) = true ↔ a.addr.sinFamily = afInet ∧ a.port = port ∧
      (a.toIp.toList = cStr ip ∨
        a.toIp = (ofPort port false).toIp ∧ ∀ b : InetAddress, b.toIp.toList ≠ cStr ip) := by
  have hport : a.port = port ↔ a.addr.sinPort = Inet.htons port := by
    have hsame : (ofPort port false).port = port := Inet.ntohs_htons port
    calc
      a.port = port ↔ a.port = (ofPort port false).port := by rw [hsame]
      _ ↔ a.addr.sinPort = Inet.htons port := port_inj
  have haddr : (ofIp ip port == a) = true ↔ a.addr.sinFamily = afInet ∧
      a.addr.sinPort = Inet.htons port ∧ a.addr.sinAddr = (ofIp ip port).addr.sinAddr := by
    rw [beq_iff, ofIp]
    rcases a with ⟨⟨family, sinPort, addr⟩⟩
    cases Inet.pton (cStr ip) <;> simp [eq_comm]
  rw [haddr, hport]
  refine and_congr_right fun _ => and_congr_right fun _ => ?_
  cases hparse : Inet.pton (cStr ip) with
  | some x =>
      have htext := Inet.pton_eq_some_iff.1 hparse
      have hresult : (ofIp ip port).addr.sinAddr = x := by rw [ofIp, hparse]
      rw [hresult]
      constructor
      · intro h
        refine .inl ?_
        rw [htext, ← h]
        exact String.toList_ofList
      · rintro (hip | ⟨-, hnone⟩)
        · rw [htext, toIp, String.toList_ofList] at hip
          exact Inet.ntop_injective hip
        · refine (hnone (ofIp ip port) ?_).elim
          rw [toIp, hresult, String.toList_ofList, htext]
  | none =>
      have hnone : ∀ b : InetAddress, b.toIp.toList ≠ cStr ip := by
        intro b hip
        rw [toIp, String.toList_ofList] at hip
        rw [← hip, Inet.pton_ntop] at hparse
        cases hparse
      have hresult : (ofIp ip port).addr.sinAddr = (ofPort port false).addr.sinAddr := by
        rw [ofIp, hparse]
        rfl
      rw [hresult, ← toIp_inj]
      constructor
      · intro h
        exact .inr ⟨h, hnone⟩
      · rintro (hip | ⟨h, -⟩)
        · exact (hnone a hip).elim
        · exact h

end InetAddress

end Hayai
