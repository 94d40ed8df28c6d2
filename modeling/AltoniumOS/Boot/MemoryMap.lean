/-
What `detect_memory` makes of the memory map. The BIOS hands out the entries one per call, as long as `EDX`
spells `SMAP`; the loop looks for the type behind the entry, at offset 20, reads the lower half of the length,
and keeps the sum in `EDX`. So it counts at most one entry, and only if nothing is left to ask for may it be
counted and right.
-/
import AltoniumOS.Boot.Stages

namespace AltoniumOS.Boot

open AltoniumOS.Lib

/-- "SMAP" -/
def smap : UInt32 := 0x534D4150

/-- An entry of the memory map, with the attributes behind it that newer firmware returns. -/
structure MapEntry where
  base : UInt64
  length : UInt64
  type : UInt32
  attributes : Option UInt32

/-- The entry as it is returned: 20 bytes, or 24 with attributes. -/
def MapEntry.bytes (e : MapEntry) : List UInt8 :=
  (List.range 8).map (leByte e.base.toNat) ++ (List.range 8).map (leByte e.length.toNat) ++
    (List.range 4).map (leByte e.type.toNat) ++
    match e.attributes with
    | none => []
    | some a => (List.range 4).map (leByte a.toNat)

/-- The BIOS returns `entries`, one per call, to calls with `SMAP` in `EDX` and in `EBX` what the call before
returned (zero at first); `EBX` is zero with the last one. Every other call fails. -/
structure Serves (map : Nat → UInt32 → UInt32 → MapReply) (entries : List MapEntry)
    (token : Nat → UInt32) : Prop where
  start : token 0 = 0
  more : ∀ k, k + 1 < entries.length → token (k + 1) ≠ 0
  entry : ∀ k e, entries[k]? = some e →
    map k smap (token k) =
    { carry := false, entry := e.bytes, ebx := if k + 1 = entries.length then 0 else token (k + 1) }
  refuses : ∀ call edx ebx, edx ≠ smap → (map call edx ebx).carry = true
  ended : ∀ call edx ebx, entries.length ≤ call → (map call edx ebx).carry = true

/-- The megabytes of the usable entries. -/
def usableSum (entries : List MapEntry) : Nat :=
  ((entries.filter (·.type = 1)).map fun e => e.length.toNat / 2 ^ 20).sum

/-! ## The loop, call by call -/

/-- Memory with the entry of a reply at `edi`. -/
def received (reply : MapReply) (edi : Nat) (m : Memory) : Memory :=
  m.blit edi (fun i => reply.entry.getD i 0) (min reply.entry.length 24)

/-- The sum with the entry at `edi`. -/
def totalWith (edi : Nat) (m : Memory) : Nat := (m.le (0x500 + 0x0C) 4 + m.le (edi + 8) 4 / 2 ^ 20) % 2 ^ 32

/-- Memory with the entry at `edi` counted, if its type is found to be usable. -/
def counted (edi : Nat) (m : Memory) : Memory :=
  if m.le (edi + 20) 4 = 1 then storeDword m (0x500 + 0x0C) (totalWith edi m) else m

/-- `.memory_loop`, with the number of entries it received. -/
def memoryTrace (map : Nat → UInt32 → UInt32 → MapReply) (stackUse : Nat) :
    Nat → Nat → UInt32 → UInt32 → Nat → Memory → Option (Nat × Memory)
  | 0, _, _, _, _, _ => none
  | fuel + 1, call, edx, ebx, edi, m =>
    let reply := map call edx ebx
    if reply.carry then some (0, m)
    else if edi + 24 + stackUse > 0x7C00 - 2 - 6 then none
    else
      let m := received reply edi m
      let edx := if m.le (edi + 20) 4 = 1 then .ofNat (totalWith edi m) else edx
      if reply.ebx = 0 then some (1, counted edi m)
      else (memoryTrace map stackUse fuel (call + 1) edx reply.ebx (edi + 24) (counted edi m)).map fun p =>
        (p.1 + 1, p.2)

/-- It is the loop. -/
theorem memoryTrace_memory (map : Nat → UInt32 → UInt32 → MapReply) (stackUse : Nat) :
    ∀ (fuel call : Nat) (edx ebx : UInt32) (edi : Nat) (m : Memory),
    (memoryTrace map stackUse fuel call edx ebx edi m).map Prod.snd =
      memoryLoop map stackUse fuel call edx ebx edi m
  | 0, _, _, _, _, _ => rfl
  | fuel + 1, call, edx, ebx, edi, m => by
    unfold memoryTrace memoryLoop
    dsimp only
    split
    · rfl
    · split
      · rfl
      · split
        · rfl
        · rw [Option.map_map, ← memoryTrace_memory map stackUse fuel]
          rfl

/-- `detect_memory` receives every entry, returns, and leaves the megabytes of the usable ones in the record. -/
def Detects (map : Nat → UInt32 → UInt32 → MapReply) (stackUse : Nat) (entries : List MapEntry)
    (m : Memory) : Prop :=
  ∃ fuel m', memoryTrace map stackUse fuel 0 smap 0 0x620 (storeDword m (0x500 + 0x0C) 0) =
    some (entries.length, m') ∧ detectMemory map stackUse fuel m = some m' ∧
    m'.le 0x50C 4 = usableSum entries % 2 ^ 32

/-! ## One entry -/

/-- The word the loop takes for the type of entry `k`: its attributes, or what was in memory behind it. -/
def MapEntry.wordBehind (e : MapEntry) (before : Memory) (k : Nat) : Nat :=
  match e.attributes with
  | some a => a.toNat
  | none => before.le (0x620 + 24 * k + 20) 4

/-- What is counted of a usable entry: the megabytes of the lower half of its length. -/
def MapEntry.lowMb (e : MapEntry) : Nat := e.length.toNat % 2 ^ 32 / 2 ^ 20

section

variable {map : Nat → UInt32 → UInt32 → MapReply} {entries : List MapEntry} {token : Nat → UInt32}
  {before m m' : Memory} {e : MapEntry} {k fuel c stackUse : Nat}

theorem bytes_length (e : MapEntry) : e.bytes.length = match e.attributes with
    | none => 20
    | some _ => 24 := by
  unfold MapEntry.bytes
  cases e.attributes <;> rfl

theorem bytes_length_field (e : MapEntry) : ∀ i < 4, e.bytes.getD (8 + i) 0 = leByte e.length.toNat i := by
  intro i hi
  interval_cases i <;> rfl

theorem bytes_attributes {a : UInt32} (h : e.attributes = some a) :
    ∀ i < 4, e.bytes.getD (20 + i) 0 = leByte a.toNat i := by
  intro i hi
  unfold MapEntry.bytes
  rw [h]
  interval_cases i <;> rfl

theorem leDword {b : Buf} {a v : Nat} (h : ∀ i < 4, b (a + i) = leByte v i) : b.le a 4 = v % 2 ^ 32 := by
  have hread := le_of_leByte (b := b) v 4 0 a fun i hi => by rw [Nat.zero_add, h i hi]
  rw [hread, Nat.pow_zero, Nat.div_one]
  rfl

theorem storeDword_le (m : Memory) (a v : Nat) : (storeDword m a v).le a 4 = v % 2 ^ 32 :=
  leDword fun i hi => by rw [storeDword, Buf.blit_in hi]

/-- The entry `k` in its place. -/
def placed (e : MapEntry) (k : Nat) (m : Memory) : Memory :=
  m.blit (0x620 + 24 * k) (fun i => e.bytes.getD i 0) (min e.bytes.length 24)

theorem placed_out {a : Nat} (h : a < 0x620 + 24 * k ∨ 0x620 + 24 * k + 24 ≤ a) : placed e k m a = m a :=
  Buf.blit_out (by omega)

theorem placed_length (e : MapEntry) (k : Nat) (m : Memory) :
    (placed e k m).le (0x620 + 24 * k + 8) 4 = e.length.toNat % 2 ^ 32 := by
  refine leDword fun i hi => ?_
  have hlen : 20 ≤ min e.bytes.length 24 := by
    rw [bytes_length]
    split <;> decide
  unfold placed
  rw [Nat.add_assoc, Buf.blit_in (by omega)]
  exact bytes_length_field e i hi

theorem placed_word (hm : ∀ a, 0x620 + 24 * k ≤ a → m a = before a) :
    (placed e k m).le (0x620 + 24 * k + 20) 4 = e.wordBehind before k := by
  unfold MapEntry.wordBehind
  cases ha : e.attributes with
  | some a =>
    have hlen : e.bytes.length = 24 := by rw [bytes_length, ha]
    have hword : (placed e k m).le (0x620 + 24 * k + 20) 4 = a.toNat % 2 ^ 32 := by
      refine leDword fun i hi => ?_
      unfold placed
      rw [Nat.add_assoc, Buf.blit_in (by rw [hlen]; omega)]
      exact bytes_attributes ha i hi
    rw [hword]
    exact Nat.mod_eq_of_lt a.toNat_lt
  | none =>
    -- the entry ends in front of the word
    have hlen : e.bytes.length = 20 := by rw [bytes_length, ha]
    refine Buf.le_congr 4 _ _ fun i hi => ?_
    exact (Buf.blit_out (by rw [hlen]; omega)).trans (hm _ (by omega))

theorem lowMb_lt (e : MapEntry) : e.lowMb < 4096 := by
  unfold MapEntry.lowMb
  omega

/-- Memory after the first entry counted. -/
structure Taken (before : Memory) (e : MapEntry) (k : Nat) (m' : Memory) : Prop where
  kept : ∀ a, 0x620 + 24 * (k + 1) ≤ a → m' a = before a
  total : m'.le 0x50C 4 = if e.wordBehind before k = 1 then e.lowMb else 0

theorem taken (hm : ∀ a, 0x620 + 24 * k ≤ a → m a = before a) (h0 : m.le 0x50C 4 = 0) :
    Taken before e k (counted (0x620 + 24 * k) (placed e k m)) ∧
      totalWith (0x620 + 24 * k) (placed e k m) = e.lowMb := by
  have hlt := lowMb_lt e
  have hsum : (placed e k m).le 0x50C 4 = 0 := (Buf.le_congr 4 _ _ fun i hi => placed_out (by omega)).trans h0
  have htotal : totalWith (0x620 + 24 * k) (placed e k m) = e.lowMb := by
    unfold totalWith
    rw [show 0x500 + 0x0C = 0x50C from rfl, hsum, placed_length, Nat.zero_add]
    exact Nat.mod_eq_of_lt (hlt.trans (by decide))
  refine ⟨⟨?_, ?_⟩, htotal⟩
  · intro a ha
    have hplaced : placed e k m a = before a := (placed_out (by omega)).trans (hm a (by omega))
    unfold counted
    split
    · rw [storeDword_out (by omega), hplaced]
    · exact hplaced
  · unfold counted
    rw [placed_word hm, htotal]
    split
    · rw [storeDword_le]
      exact Nat.mod_eq_of_lt (hlt.trans (by decide))
    · exact hsum

/-! ## All the entries -/

/-- What is counted of the last entry. -/
def lastMb (entries : List MapEntry) (before : Memory) : Nat :=
  match entries.getLast? with
  | none => 0
  | some e => if e.wordBehind before (entries.length - 1) = 1 then e.lowMb else 0

/-- No entry but the last is taken for a usable one. -/
def Quiet (entries : List MapEntry) (before : Memory) (k : Nat) : Prop :=
  ∀ j e, k ≤ j → entries[j]? = some e → j + 1 < entries.length → e.wordBehind before j ≠ 1

theorem lastMb_eq (he : entries[k]? = some e) (hk : k + 1 = entries.length) :
    lastMb entries before = if e.wordBehind before k = 1 then e.lowMb else 0 := by
  unfold lastMb
  rw [List.getLast?_eq_getElem?, show entries.length - 1 = k by omega, he]

/-- The call for entry `k`. -/
theorem trace_step (hs : Serves map entries token) (he : entries[k]? = some e) :
    memoryTrace map stackUse (fuel + 1) k smap (token k) (0x620 + 24 * k) m =
      if 0x620 + 24 * (k + 1) + stackUse > 0x7C00 - 2 - 6 then none
      else if k + 1 = entries.length then some (1, counted (0x620 + 24 * k) (placed e k m))
      else (memoryTrace map stackUse fuel (k + 1)
        (if (placed e k m).le (0x620 + 24 * k + 20) 4 = 1
          then .ofNat (totalWith (0x620 + 24 * k) (placed e k m)) else smap)
        (token (k + 1)) (0x620 + 24 * (k + 1)) (counted (0x620 + 24 * k) (placed e k m))).map fun p =>
          (p.1 + 1, p.2) := by
  have hk : k < entries.length := (List.getElem?_eq_some_iff.1 he).1
  rw [memoryTrace, hs.entry k e he]
  dsimp only
  rw [if_neg (by decide), show 0x620 + 24 * k + 24 = 0x620 + 24 * (k + 1) by omega]
  by_cases hlast : k + 1 = entries.length
  · rw [if_pos hlast, if_pos hlast, if_pos rfl]
    rfl
  · rw [if_neg hlast, if_neg hlast, if_neg (hs.more k (by omega))]
    rfl

/-- With anything but the signature in `EDX` the loop ends. -/
theorem trace_refused (hs : Serves map entries token) {call : Nat} {edx ebx : UInt32} {edi : Nat}
    (hedx : edx ≠ smap) {p : Nat × Memory}
    (h : memoryTrace map stackUse fuel call edx ebx edi m = some p) : p.1 = 0 := by
  cases fuel with
  | zero => cases h
  | succ fuel =>
    rw [memoryTrace] at h
    dsimp only at h
    rw [if_pos (hs.refuses call edx ebx hedx)] at h
    cases h
    rfl

theorem trace_ended (hs : Serves map entries token) {edx ebx : UInt32} {edi : Nat} :
    memoryTrace map stackUse (fuel + 1) entries.length edx ebx edi m = some (0, m) := by
  rw [memoryTrace]
  exact if_pos (hs.ended entries.length edx ebx (le_refl _))

/-- A sum of what one entry has does not spell the signature. -/
theorem lowMb_ne_smap (e : MapEntry) : UInt32.ofNat e.lowMb ≠ smap := by
  have hlt := lowMb_lt e
  intro h
  have hnat := congrArg UInt32.toNat h
  rw [UInt32.toNat_ofNat', Nat.mod_eq_of_lt (by omega)] at hnat
  rw [hnat] at hlt
  exact absurd hlt (by decide)

/-- A run that receives the rest of the map has met no usable entry before the last, and counted that. -/
theorem trace_received (hs : Serves map entries token) :
    ∀ (r k fuel : Nat) (m m' : Memory), k + r = entries.length →
      (∀ a, 0x620 + 24 * k ≤ a → m a = before a) → m.le 0x50C 4 = 0 →
      memoryTrace map stackUse fuel k smap (token k) (0x620 + 24 * k) m = some (r, m') →
      (0 < r → 0x620 + 24 * entries.length + stackUse ≤ 0x7C00 - 2 - 6) ∧ Quiet entries before k ∧
        m'.le 0x50C 4 = if r = 0 then 0 else lastMb entries before
  | _, _, 0, _, _, _, _, _, h => by cases h
  | 0, k, fuel + 1, m, m', hk, _, h0, h => by
    rw [show k = entries.length by omega, trace_ended hs] at h
    cases h
    refine ⟨fun h => absurd h (lt_irrefl 0), fun j e hj _ hlt => by omega, h0⟩
  | r + 1, k, fuel + 1, m, m', hk, hm, h0, h => by
    obtain ⟨e, he⟩ : ∃ e, entries[k]? = some e := ⟨entries[k], List.getElem?_eq_getElem (by omega)⟩
    obtain ⟨htaken, htotal⟩ := taken (e := e) hm h0
    rw [trace_step hs he, placed_word hm, htotal] at h
    split at h
    · cases h
    rename_i hroom
    split at h
    · -- the last entry
      rename_i hlast
      cases h
      refine ⟨fun _ => by omega, fun j e' hj _ hlt => by omega, ?_⟩
      rw [if_neg (Nat.succ_ne_zero 0), lastMb_eq he hlast]
      exact htaken.total
    · rename_i hlast
      obtain ⟨p, hp, hpair⟩ := Option.map_eq_some_iff.1 h
      cases hpair
      by_cases hword : e.wordBehind before k = 1
      · -- counted, and so the last one received
        rw [if_pos hword] at hp
        have hzero := trace_refused hs (lowMb_ne_smap e) hp
        omega
      · rw [if_neg hword] at hp
        have hnext := htaken.total
        rw [if_neg hword] at hnext
        obtain ⟨hfits, hquiet, hsum⟩ := trace_received hs p.1 (k + 1) fuel _ p.2 (by omega) htaken.kept hnext hp
        refine ⟨fun _ => hfits (by omega), fun j e' hj he' hlt => ?_, ?_⟩
        · by_cases hjk : j = k
          · subst hjk
            cases he.symm.trans he'
            exact hword
          · exact hquiet j e' (by omega) he' hlt
        · rw [if_neg (by omega)] at hsum
          rw [if_neg (Nat.succ_ne_zero _), hsum]

/-- The entries in the buffer end below the stack. -/
def BelowStack (stackUse : Nat) (entries : List MapEntry) : Prop :=
  entries = [] ∨ 0x620 + 24 * entries.length + stackUse ≤ 0x7C00 - 2 - 6

/-- Where no entry before the last is taken for usable, and they end below the stack, all are received. -/
theorem trace_receives (hs : Serves map entries token) (hfits : BelowStack stackUse entries) :
    ∀ (r k : Nat) (m : Memory),
      k + r = entries.length → Quiet entries before k → (∀ a, 0x620 + 24 * k ≤ a → m a = before a) →
      m.le 0x50C 4 = 0 → ∃ m', memoryTrace map stackUse (r + 1) k smap (token k) (0x620 + 24 * k) m = some (r, m')
  | 0, k, m, hk, _, _, _ => by
    rw [show k = entries.length by omega]
    exact ⟨m, trace_ended hs⟩
  | r + 1, k, m, hk, hquiet, hm, h0 => by
    obtain ⟨e, he⟩ : ∃ e, entries[k]? = some e := ⟨entries[k], List.getElem?_eq_getElem (by omega)⟩
    obtain ⟨htaken, htotal⟩ := taken (e := e) hm h0
    have hroom : 0x620 + 24 * entries.length + stackUse ≤ 0x7C00 - 2 - 6 := by
      refine hfits.resolve_left fun hnil => ?_
      rw [hnil] at he
      cases he
    rw [trace_step hs he, placed_word hm, htotal, if_neg (by omega)]
    by_cases hlast : k + 1 = entries.length
    · rw [if_pos hlast]
      obtain rfl : r = 0 := by omega
      exact ⟨_, rfl⟩
    · have hword := hquiet k e (le_refl k) he (by omega)
      have hnext := htaken.total
      rw [if_neg hword] at hnext
      obtain ⟨m', hrun⟩ :=
        trace_receives hs hfits r (k + 1) _ (by omega) (fun j e' hj => hquiet j e' (by omega)) htaken.kept hnext
      rw [if_neg hlast, if_neg hword, hrun]
      exact ⟨m', rfl⟩

/-- The map is detected just where its entries end below the stack, none before the last is taken for usable by
the word at offset 20, and what is counted of the last one is all there is. -/
theorem detects_iff (hs : Serves map entries token) (stackUse : Nat) (m : Memory) : Detects map stackUse entries m ↔
    BelowStack stackUse entries ∧ Quiet entries m 0 ∧ lastMb entries m = usableSum entries % 2 ^ 32 := by
  have hkept : ∀ a, 0x620 + 24 * 0 ≤ a → storeDword m (0x500 + 0x0C) 0 a = m a :=
    fun a ha => storeDword_out (by omega)
  have hzero : (storeDword m (0x500 + 0x0C) 0).le 0x50C 4 = 0 := storeDword_le m 0x50C 0
  have hlast : entries.length = 0 → lastMb entries m = 0 := by
    intro hnil
    rw [List.length_eq_zero_iff.1 hnil]
    rfl
  constructor
  · rintro ⟨fuel, m', hrun, -, hsum⟩
    rw [← hs.start] at hrun
    obtain ⟨hfits, hquiet, htotal⟩ := trace_received hs entries.length 0 fuel _ m' (by omega) hkept hzero hrun
    refine ⟨?_, hquiet, ?_⟩
    · rcases Nat.eq_zero_or_pos entries.length with hnil | hpos
      · exact .inl (List.length_eq_zero_iff.1 hnil)
      · exact .inr (hfits hpos)
    · rw [← hsum, htotal]
      split
      · rename_i hnil
        exact hlast hnil
      · rfl
  · rintro ⟨hfits, hquiet, hsum⟩
    obtain ⟨m', hrun⟩ := trace_receives hs hfits entries.length 0 _ (by omega) hquiet hkept hzero
    obtain ⟨-, -, htotal⟩ := trace_received hs entries.length 0 _ _ m' (by omega) hkept hzero hrun
    rw [hs.start] at hrun
    refine ⟨entries.length + 1, m', hrun, ?_, ?_⟩
    · have hmemory :=
        memoryTrace_memory map stackUse (entries.length + 1) 0 smap 0 0x620 (storeDword m (0x500 + 0x0C) 0)
      rw [show (0x620 : Nat) = 0x620 + 24 * 0 from rfl, hrun] at hmemory
      exact hmemory.symm
    · rw [htotal, ← hsum]
      split
      · rename_i hnil
        exact (hlast hnil).symm
      · rfl

end

/-! ## Maps of two machines -/

/-- A BIOS that returns `entries`, with the number of the next one in `EBX`. -/
def mapOf (entries : List MapEntry) : Nat → UInt32 → UInt32 → MapReply := fun call edx ebx =>
  if edx = smap ∧ ebx = .ofNat call then
    match entries[call]? with
    | some e =>
      { carry := false, entry := e.bytes, ebx := if call + 1 = entries.length then 0 else .ofNat (call + 1) }
    | none => { carry := true, entry := [], ebx := 0 }
  else { carry := true, entry := [], ebx := 0 }

theorem mapOf_serves {entries : List MapEntry} (h : entries.length < 2 ^ 32) :
    Serves (mapOf entries) entries UInt32.ofNat where
  start := rfl
  more := by
    intro k hk h0
    have hnat := congrArg UInt32.toNat h0
    rw [UInt32.toNat_ofNat', Nat.mod_eq_of_lt (by omega)] at hnat
    cases hnat
  entry := by
    intro k e he
    unfold mapOf
    rw [if_pos ⟨rfl, rfl⟩, he]
  refuses := by
    intro call edx ebx hedx
    unfold mapOf
    rw [if_neg fun hc => hedx hc.1]
  ended := by
    intro call edx ebx hcall
    unfold mapOf
    split
    · rw [List.getElem?_eq_none hcall]
    · rfl

/-- 639 KB and 127 MB, both usable, without attributes. -/
def twoRegions : List MapEntry := [⟨0, 0x9FC00, 1, none⟩, ⟨0x100000, 0x7F00000, 1, none⟩]

/-- 127 MB with the attributes that say the entry is in use. -/
def oneRegion : List MapEntry := [⟨0x100000, 0x7F00000, 1, some 1⟩]

theorem detects_oneRegion : Detects (mapOf oneRegion) 0x100 oneRegion fun _ => 0 := by
  refine (detects_iff (mapOf_serves (by decide)) _ _).2 ⟨.inr (by decide), fun j e _ he hlt => ?_, by
    decide +kernel⟩
  exact absurd hlt (by simp [oneRegion])

/-- On clear memory no type is found behind the entries, and nothing is counted of 127 MB. -/
theorem twoRegions_not_detected : Serves (mapOf twoRegions) twoRegions UInt32.ofNat ∧ usableSum twoRegions = 127 ∧
    ¬ Detects (mapOf twoRegions) 0x100 twoRegions fun _ => 0 := by
  have hs : Serves (mapOf twoRegions) twoRegions UInt32.ofNat := mapOf_serves (by decide)
  refine ⟨hs, by decide, ?_⟩
  rintro ⟨fuel, m', hrun, -, hsum⟩
  have hkept : ∀ a, 0x620 + 24 * 0 ≤ a → storeDword (fun _ => 0) (0x500 + 0x0C) 0 a = (0 : UInt8) :=
    fun a ha => storeDword_out (by omega)
  obtain ⟨-, -, htotal⟩ := trace_received hs 2 0 fuel _ m' rfl hkept (storeDword_le _ 0x50C 0) hrun
  rw [htotal] at hsum
  exact absurd hsum (by decide +kernel)

end AltoniumOS.Boot
