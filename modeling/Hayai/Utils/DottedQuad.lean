import Mathlib.Data.List.Basic

/-! # The text of an IPv4 address

`inet_pton` and `inet_ntop` of the C library for `AF_INET`. The scanner goes over the text
once, with the octet it is in as an accumulator; it takes no leading zeros. It accepts
exactly the texts that `inet_ntop` prints.
-/

namespace Inet

structure InAddr where
  a : UInt8
  b : UInt8
  c : UInt8
  d : UInt8
  deriving DecidableEq, Repr

def InAddr.octets (x : InAddr) : List Nat := [x.a.toNat, x.b.toNat, x.c.toNat, x.d.toNat]

/-- The scanner between two characters: the octets before the current one, the current one
(`*tp`), whether it has a digit, and the octets begun. -/
structure Scan where
  before : List Nat
  tp : Nat
  sawDigit : Bool
  octets : Nat
  deriving DecidableEq, Repr

namespace Scan

def start : Scan := ⟨[], 0, false, 0⟩

def digit (s : Scan) (d : Nat) : Option Scan :=
  let new := s.tp * 10 + d
  if s.sawDigit && s.tp == 0 then none
  else if 255 < new then none
  else if s.sawDigit then some { s with tp := new }
  else if 4 < s.octets + 1 then none
  else some { s with tp := new, sawDigit := true, octets := s.octets + 1 }

def dot (s : Scan) : Option Scan :=
  if s.sawDigit then
    if s.octets = 4 then none else some ⟨s.before ++ [s.tp], 0, false, s.octets⟩
  else none

def next (s : Scan) (ch : Char) : Option Scan :=
  if ch.isDigit then s.digit (ch.toNat - 48) else if ch = '.' then s.dot else none

def run (s : Scan) : List Char → Option Scan
  | [] => some s
  | ch :: src => (s.next ch).bind fun t => t.run src

def result (s : Scan) : Option InAddr :=
  if s.octets < 4 then none
  else
    match s.before ++ [s.tp] with
    | [a, b, c, d] => some ⟨.ofNat a, .ofNat b, .ofNat c, .ofNat d⟩
    | _ => none

end Scan

def pton (src : List Char) : Option InAddr := (Scan.start.run src).bind Scan.result

def ntop (x : InAddr) : List Char := ['.'].intercalate (x.octets.map (Nat.toDigits 10))

/-! ## Digits -/

theorem digitChar_of_isDigit {ch : Char} (h : ch.isDigit = true) :
    ch.toNat - 48 < 10 ∧ (ch.toNat - 48).digitChar = ch := by
  rcases Char.isDigit_iff_toNat.1 h with ⟨hlow, hhigh⟩
  have hlt : ch.toNat - 48 < 10 := by
    have : '9'.toNat = 57 := rfl
    omega
  refine ⟨hlt, Char.toNat_inj.1 ?_⟩
  have : '0'.toNat = 48 := rfl
  rw [Nat.toNat_digitChar_of_lt_ten hlt]
  omega

theorem toDigits_mul_add {n d : Nat} (hn : 0 < n) (hd : d < 10) :
    Nat.toDigits 10 (n * 10 + d) = Nat.toDigits 10 n ++ [d.digitChar] := by
  rw [Nat.mul_comm, ← Nat.toDigits_append_toDigits (by omega) hn hd, Nat.toDigits_of_lt_base hd]

/-! ## What is accepted -/

namespace Scan

def text (s : Scan) : List Char :=
  s.before.flatMap (fun n => Nat.toDigits 10 n ++ ['.']) ++
    if s.sawDigit then Nat.toDigits 10 s.tp else []

structure Sound (s : Scan) : Prop where
  octets : s.octets = s.before.length + if s.sawDigit then 1 else 0
  le : s.octets ≤ 4
  small : s.tp < 256 ∧ ∀ n ∈ s.before, n < 256
  fresh : s.sawDigit = false → s.tp = 0 ∧ s.octets < 4

theorem start_sound : start.Sound := ⟨rfl, by decide, ⟨by decide, nofun⟩, fun _ => by decide⟩

theorem digit_spec {s t : Scan} {d : Nat} (h : s.Sound) (hd : d < 10) (hstep : s.digit d = some t) :
    t.Sound ∧ t.text = s.text ++ [d.digitChar] := by
  have hfresh := h.fresh
  have hoctets := h.octets
  rcases s with ⟨before, tp, sawDigit, octets⟩
  simp only [digit] at hstep
  split at hstep
  · cases hstep
  · rename_i hzero
    split at hstep
    · cases hstep
    · rename_i hsmall
      cases sawDigit with
      | true =>
          simp only [if_true, Option.some.injEq] at hstep
          subst hstep
          refine ⟨⟨hoctets, h.le, ⟨Nat.lt_succ_of_le (Nat.le_of_not_lt hsmall), h.small.2⟩, nofun⟩, ?_⟩
          have hpos : 0 < tp := by
            apply Nat.pos_of_ne_zero
            simpa using hzero
          simp only [text, if_true, toDigits_mul_add hpos hd, List.append_assoc]
      | false =>
          rcases hfresh rfl with ⟨htp, hlt⟩
          have htp : tp = 0 := htp
          have hlt : octets < 4 := hlt
          subst htp
          simp only [Bool.false_eq_true, if_false] at hstep
          rw [if_neg (by omega), Option.some.injEq] at hstep
          subst hstep
          have hcount : octets = before.length := hoctets
          refine ⟨⟨?_, ?_, ⟨?_, h.small.2⟩, nofun⟩, ?_⟩
          · simp [hcount]
          · exact hlt
          · show 0 * 10 + d < 256
            omega
          · simp [text, Nat.toDigits_of_lt_base hd]

theorem dot_spec {s t : Scan} (h : s.Sound) (hstep : s.dot = some t) :
    t.Sound ∧ t.text = s.text ++ ['.'] := by
  have hoctets := h.octets
  have hle := h.le
  rcases s with ⟨before, tp, sawDigit, octets⟩
  simp only [dot] at hstep
  split at hstep
  · rename_i hsaw
    have hsaw : sawDigit = true := hsaw
    subst hsaw
    split at hstep
    · cases hstep
    · rename_i hfour
      rw [Option.some.injEq] at hstep
      subst hstep
      have hcount : octets = before.length + 1 := hoctets
      have hle : octets ≤ 4 := hle
      have hlt : octets < 4 := by omega
      refine ⟨⟨by simp [hcount], hle, ⟨by simp, ?_⟩, fun _ => ⟨rfl, hlt⟩⟩, by simp [text]⟩
      intro n hn
      rcases List.mem_append.1 hn with hn | hn
      · exact h.small.2 n hn
      · rw [List.mem_singleton.1 hn]
        exact h.small.1
  · cases hstep

theorem next_spec {s t : Scan} {ch : Char} (h : s.Sound) (hstep : s.next ch = some t) :
    t.Sound ∧ t.text = s.text ++ [ch] := by
  unfold next at hstep
  split at hstep
  · rename_i hdigit
    rcases digitChar_of_isDigit hdigit with ⟨hlt, hch⟩
    have hspec := digit_spec h hlt hstep
    rw [hch] at hspec
    exact hspec
  · split at hstep
    · rename_i hdot
      rw [hdot]
      exact dot_spec h hstep
    · cases hstep

/-- The scanner forgets nothing: its state has the text it has gone over. -/
theorem run_spec {s t : Scan} {src : List Char} (h : s.Sound) (hrun : s.run src = some t) :
    t.Sound ∧ t.text = s.text ++ src := by
  induction src generalizing s with
  | nil =>
      cases hrun
      exact ⟨h, by simp⟩
  | cons ch src ih =>
      rcases Option.bind_eq_some_iff.1 hrun with ⟨u, hu, hrest⟩
      rcases next_spec h hu with ⟨hsound, htext⟩
      rcases ih hsound hrest with ⟨hlast, hall⟩
      exact ⟨hlast, by rw [hall, htext, List.append_assoc]; rfl⟩

theorem run_append (s : Scan) (p q : List Char) : s.run (p ++ q) = (s.run p).bind (·.run q) := by
  induction p generalizing s with
  | nil => rfl
  | cons ch p ih =>
      simp only [List.cons_append, run, Option.bind_assoc]
      congr 1
      funext t
      exact ih t

/-- An octet is read digit by digit. -/
theorem run_toDigits {before : List Nat} {n : Nat} (hbefore : before.length < 4) (hn : n < 256) :
    (⟨before, 0, false, before.length⟩ : Scan).run (Nat.toDigits 10 n) =
      some ⟨before, n, true, before.length + 1⟩ := by
  induction n using Nat.strongRecOn with
  | _ n ih =>
      by_cases hsmall : n < 10
      · have hdigit : n.digitChar.isDigit = true := by simpa [Nat.isDigit_digitChar] using hsmall
        have hvalue := Nat.toNat_digitChar_sub_48_of_lt_ten hsmall
        rw [Nat.toDigits_of_lt_base hsmall]
        simp only [run, next, hdigit, if_true, hvalue, digit, Bool.false_and, Bool.false_eq_true,
          if_false]
        rw [if_neg (by omega), if_neg (by omega)]
        simp
      · have hlast : n % 10 < 10 := Nat.mod_lt _ (by omega)
        have hdigit : (n % 10).digitChar.isDigit = true := by
          simpa [Nat.isDigit_digitChar] using hlast
        have hvalue := Nat.toNat_digitChar_sub_48_of_lt_ten hlast
        have hpos : 0 < n / 10 := by omega
        have hwhole : n / 10 * 10 + n % 10 = n := by omega
        rw [Nat.toDigits_of_base_le (by omega) (by omega), run_append,
          ih (n / 10) (by omega) (by omega)]
        simp only [Option.bind_some, run, next, hdigit, if_true, hvalue, digit, hwhole, Bool.true_and,
          beq_iff_eq, Nat.pos_iff_ne_zero.1 hpos, if_false]
        rw [if_neg (by omega)]
        rfl

/-- A dot ends an octet, unless it is the last. -/
theorem run_octet {before : List Nat} {n : Nat} (hbefore : before.length < 3) (hn : n < 256)
    (rest : List Char) : (⟨before, 0, false, before.length⟩ : Scan).run
      (Nat.toDigits 10 n ++ '.' :: rest) =
        (⟨before ++ [n], 0, false, (before ++ [n]).length⟩ : Scan).run rest := by
  have hdot : next ⟨before, n, true, before.length + 1⟩ '.' =
      some ⟨before ++ [n], 0, false, (before ++ [n]).length⟩ := by
    have hnot : ('.' : Char).isDigit = false := by decide
    simp only [next, hnot, Bool.false_eq_true, if_false, if_true, dot, List.length_append,
      List.length_singleton]
    rw [if_neg (by omega)]
  rw [run_append, run_toDigits (by omega) hn, Option.bind_some, run, hdot]
  rfl

end Scan

theorem ntop_eq (x : InAddr) : ntop x =
    Nat.toDigits 10 x.a.toNat ++ '.' :: (Nat.toDigits 10 x.b.toNat ++ '.' ::
      (Nat.toDigits 10 x.c.toNat ++ '.' :: Nat.toDigits 10 x.d.toNat)) := by
  simp [ntop, InAddr.octets, List.intercalate]

theorem Scan.text_of_result {s : Scan} (h : s.Sound) {x : InAddr} (hresult : s.result = some x) :
    s.text = ntop x := by
  have hoctets := h.octets
  have hsmall := h.small
  rcases s with ⟨before, tp, sawDigit, octets⟩
  simp only [result] at hresult
  split at hresult
  · cases hresult
  · rename_i hmany
    cases sawDigit with
    | false => exact (hmany (h.fresh rfl).2).elim
    | true =>
        split at hresult
        · rename_i a b c d hlist
          cases hresult
          rcases List.append_inj' (show before ++ [tp] = [a, b, c] ++ [d] from hlist) rfl with
            ⟨hbefore, htp⟩
          cases htp
          have hbefore : before = [a, b, c] := hbefore
          subst hbefore
          rcases hsmall with ⟨htp, hsmall⟩
          have htp : tp < 256 := htp
          have ha : a < 256 := hsmall a (by simp)
          have hb : b < 256 := hsmall b (by simp)
          have hc : c < 256 := hsmall c (by simp)
          rw [ntop_eq]
          simp [text, Nat.mod_eq_of_lt ha, Nat.mod_eq_of_lt hb, Nat.mod_eq_of_lt hc,
            Nat.mod_eq_of_lt htp]
        · cases hresult

theorem pton_ntop (x : InAddr) : pton (ntop x) = some x := by
  have ha := x.a.toNat_lt
  have hb := x.b.toNat_lt
  have hc := x.c.toNat_lt
  have hd := x.d.toNat_lt
  have hrun : Scan.start.run (ntop x) =
      some ⟨[x.a.toNat, x.b.toNat, x.c.toNat], x.d.toNat, true, 4⟩ := by
    rw [ntop_eq]
    refine (Scan.run_octet (show ([] : List Nat).length < 3 by decide) ha _).trans ?_
    refine (Scan.run_octet (by simp) hb _).trans ?_
    refine (Scan.run_octet (by simp) hc _).trans ?_
    exact Scan.run_toDigits (by simp) hd
  rw [pton, hrun]
  simp [Scan.result]

/-- The parser accepts exactly what is printed, as the address it is printed for. -/
theorem pton_eq_some_iff {src : List Char} {x : InAddr} : pton src = some x ↔ src = ntop x := by
  constructor
  · intro h
    rcases Option.bind_eq_some_iff.1 h with ⟨s, hrun, hresult⟩
    rcases Scan.run_spec Scan.start_sound hrun with ⟨hsound, htext⟩
    exact htext.symm.trans (Scan.text_of_result hsound hresult)
  · rintro rfl
    exact pton_ntop x

theorem ntop_injective {x y : InAddr} (h : ntop x = ntop y) : x = y := by
  have hx := pton_ntop x
  rw [h, pton_ntop] at hx
  exact (Option.some.inj hx).symm

theorem colon_notMem_toDigits (n : Nat) : ':' ∉ Nat.toDigits 10 n := by
  intro hmem
  have hdigit := Nat.isDigit_of_mem_toDigits (by omega) (by omega) hmem
  revert hdigit
  decide

theorem colon_notMem_ntop (x : InAddr) : ':' ∉ ntop x := by
  simp [ntop_eq, colon_notMem_toDigits]

/-! ## Byte order -/

def htons (n : UInt16) : UInt8 × UInt8 := (.ofNat (n.toNat / 256), .ofNat (n.toNat % 256))

def ntohs (p : UInt8 × UInt8) : UInt16 := .ofNat (p.1.toNat * 256 + p.2.toNat)

def htonl (n : UInt32) : InAddr :=
  ⟨(n >>> 24).toUInt8, (n >>> 16).toUInt8, (n >>> 8).toUInt8, n.toUInt8⟩

theorem toNat_ntohs (p : UInt8 × UInt8) : (ntohs p).toNat = p.1.toNat * 256 + p.2.toNat := by
  have hfst := p.1.toNat_lt
  have hsnd := p.2.toNat_lt
  have hlt : p.1.toNat * 256 + p.2.toNat < 65536 := by omega
  simp [ntohs, Nat.mod_eq_of_lt hlt]

theorem ntohs_htons (n : UInt16) : ntohs (htons n) = n := by
  have hn := n.toNat_lt
  have hhigh : n.toNat / 256 < 256 := by omega
  have hlow : n.toNat % 256 < 256 := Nat.mod_lt _ (by omega)
  apply UInt16.toNat_inj.1
  rw [toNat_ntohs]
  simp only [htons, UInt8.toNat_ofNat']
  omega

theorem htons_ntohs (p : UInt8 × UInt8) : htons (ntohs p) = p := by
  have hfst := p.1.toNat_lt
  have hsnd := p.2.toNat_lt
  refine Prod.ext ?_ ?_ <;> apply UInt8.toNat_inj.1 <;>
    simp only [htons, toNat_ntohs, UInt8.toNat_ofNat'] <;> omega

end Inet
