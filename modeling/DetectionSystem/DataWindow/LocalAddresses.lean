import DetectionSystem.DataWindow.Estimate
import DetectionSystem.Lib.GroupBy
import DetectionSystem.Server.StoreInDB
import Mathlib.Data.List.DropRight

/-!
# The entries of the estimate

`Update_chart_err_Click` takes the sequence number of a localisation from the packets of its
address: it joins `local_macs` with `local_packets` on the address alone, and groups the pairs by
the time of the localisation and the sequence number. So an address that has sent several packets is
read several times at each time it was localised, with numbers of packets that were sent at other
times, and of two addresses with one number at one time only one is read, the server's choice.

`addrList_iff` says on which tables none of this happens.
-/

namespace DetectionSystem

namespace DataWindow

open GroupBy

/-- `int.Parse(s, NumberStyles.HexNumber)`: hexadecimal digits between white space, of at most 32
bits; `none` where it throws. -/
def parseHex (s : List Char) : Option ℤ :=
  match (s.dropWhile PacketProcessor.isSpace).rdropWhile PacketProcessor.isSpace with
  | [] => none
  | digits => do
    let digits ← digits.mapM PacketProcessor.hexDigit
    let n : ℕ := digits.foldl (fun n v => 16 * n + v) 0
    if n < 2 ^ 32 then some (Int.bmod n (2 ^ 32)) else none

/-- `Convert.ToDateTime(timestamp).Ticks`. -/
def ticks (timestamp : ℕ) : ℤ := 621355968000000000 + 10000000 * timestamp

/-- Different seconds have different ticks. -/
theorem ticks_inj {t u : ℕ} : ticks t = ticks u ↔ t = u := by
  unfold ticks
  omega

variable {F : Type}

/-- The rows of `local_macs` in the chosen interval. -/
def between (timestart timestop : ℕ) (local_macs : List (Located F)) : List (Located F) :=
  local_macs.filter fun m => timestart ≤ m.timestamp ∧ m.timestamp ≤ timestop

/-- `local_macs AS m JOIN local_packets AS p ON m.mac = p.addr`. Addresses and sequence numbers are
printed in lower case, so that they are compared as they stand. -/
def joined (macs : List (Located F)) (local_packets : List LocalPacket) :
    List (Located F × LocalPacket) :=
  macs.flatMap fun m => (local_packets.filter (·.addr = m.mac)).map (m, ·)

/-- `GROUP BY m.timestamp, seq_ctl`. -/
def groupKey (row : Located F × LocalPacket) : ℕ × List Char := (row.1.timestamp, row.2.seq_ctl)

/-- `SELECT count(distinct(mac))`. -/
def total_address (macs : List (Located F)) : ℕ := (macs.map (·.mac)).dedup.length

/-- The results of the query, `ORDER BY m.timestamp`. -/
structure IsResult (macs : List (Located F)) (local_packets : List LocalPacket)
    (rows : List (Located F × LocalPacket)) : Prop where
  groups : OneOfEach groupKey (joined macs local_packets) rows
  ordered : rows.Pairwise (·.1.timestamp ≤ ·.1.timestamp)

/-- The loop that reads the result; an exception of `int.Parse` ends it. -/
def readAddrList : List (Located F × LocalPacket) → List (LocalAddress F)
  | [] => []
  | (m, p) :: rows =>
    match parseHex p.seq_ctl with
    | none => []
    | some seq_n => ⟨m.mac, seq_n, ticks m.timestamp, m.x, m.y⟩ :: readAddrList rows

/-- What the rows of a localisation and of an entry have in common. -/
def Place (F : Type) : Type := List Char × ℤ × F × F

/-- Places can be compared. -/
instance [DecidableEq F] : DecidableEq (Place F) := inferInstanceAs (DecidableEq (_ × _))

/-- The place of a localisation. -/
def placeOf (m : Located F) : Place F := (m.mac, ticks m.timestamp, m.x, m.y)

/-- The place of an entry. -/
def LocalAddress.place (lA : LocalAddress F) : Place F := (lA.mac, lA.timestamp, lA.x, lA.y)

/-- The entries are those of the localisations `macs`, each with the number of a packet of its
address that was captured at its time. -/
structure Faithful (macs : List (Located F)) (local_packets : List LocalPacket)
    (AddrList : List (LocalAddress F)) : Prop where
  once : (AddrList.map LocalAddress.place).Perm (macs.map placeOf)
  captured : ∀ lA ∈ AddrList, ∃ p ∈ local_packets,
    p.addr = lA.mac ∧ ticks p.timestamp = lA.timestamp ∧ parseHex p.seq_ctl = some lA.seq_n

/-- The sequence numbers of the packets of an address. -/
def seqsOf (local_packets : List LocalPacket) (mac : List Char) : List (List Char) :=
  ((local_packets.filter (·.addr = mac)).map (·.seq_ctl)).dedup

/-- The localisations of an address at a time. -/
def localisations (macs : List (Located F)) (m : Located F) : ℕ :=
  macs.countP fun m' => m'.mac = m.mac ∧ m'.timestamp = m.timestamp

/-- What the tables have to be like. -/
structure ReadOnce (macs : List (Located F)) (local_packets : List LocalPacket) : Prop where
  same_place : ∀ m ∈ macs, ∀ m' ∈ macs, m.mac = m'.mac → m.timestamp = m'.timestamp →
    placeOf m = placeOf m'
  as_many : ∀ m ∈ macs, localisations macs m = (seqsOf local_packets m.mac).length
  apart : ∀ m ∈ macs, ∀ m' ∈ macs, m.timestamp = m'.timestamp → m.mac ≠ m'.mac →
    (seqsOf local_packets m.mac).Disjoint (seqsOf local_packets m'.mac)
  captured : ∀ m ∈ macs, ∀ seq_ctl ∈ seqsOf local_packets m.mac,
    ∃ seq_n, parseHex seq_ctl = some seq_n ∧ ∃ p ∈ local_packets,
      p.addr = m.mac ∧ p.timestamp = m.timestamp ∧ parseHex p.seq_ctl = some seq_n

/-! ## The rows that are read -/

section
variable {macs : List (Located F)} {local_packets : List LocalPacket}
  {rows : List (Located F × LocalPacket)} {row row' : Located F × LocalPacket}
  {m m' : Located F} {p : LocalPacket}

/-- A row of the join is a localisation with a packet of its address. -/
theorem mem_joined : row ∈ joined macs local_packets ↔
    row.1 ∈ macs ∧ row.2 ∈ local_packets ∧ row.2.addr = row.1.mac := by
  obtain ⟨m, p⟩ := row
  simp [joined]

/-- The sequence numbers of an address are those of its packets. -/
theorem mem_seqsOf {mac seq_ctl : List Char} : seq_ctl ∈ seqsOf local_packets mac ↔
    ∃ p ∈ local_packets, p.addr = mac ∧ p.seq_ctl = seq_ctl := by
  simp [seqsOf, and_assoc]

/-- Places are the same if the address, the time and the position are. -/
theorem placeOf_eq_iff : placeOf m = placeOf m' ↔
    m.mac = m'.mac ∧ m.timestamp = m'.timestamp ∧ m.x = m'.x ∧ m.y = m'.y := by
  simp [placeOf, Place, ticks_inj]

/-- The sequence numbers of all rows can be read. -/
def Readable (rows : List (Located F × LocalPacket)) : Prop :=
  ∀ row ∈ rows, ∃ seq_n, parseHex row.2.seq_ctl = some seq_n

/-- An entry is read from a row. -/
theorem mem_readAddrList {lA : LocalAddress F} (h : lA ∈ readAddrList rows) :
    ∃ row ∈ rows, lA.place = placeOf row.1 ∧ parseHex row.2.seq_ctl = some lA.seq_n := by
  induction rows with
  | nil => cases h
  | cons row rows ih =>
    rw [readAddrList] at h
    split at h
    case h_1 => cases h
    case h_2 seq_n hseq =>
      rcases List.mem_cons.1 h with rfl | h
      · exact ⟨row, List.mem_cons_self, rfl, hseq⟩
      · obtain ⟨row', hrow', hlA⟩ := ih h
        exact ⟨row', List.mem_cons_of_mem _ hrow', hlA⟩

/-- Where every number can be read, the entries are those of the rows, one by one. -/
theorem map_place_readAddrList (h : Readable rows) :
    (readAddrList rows).map LocalAddress.place = rows.map fun row => placeOf row.1 := by
  induction rows with
  | nil => rfl
  | cons row rows ih =>
    obtain ⟨⟨seq_n, hseq⟩, hrows⟩ := List.forall_mem_cons.1 h
    rw [readAddrList, hseq, List.map_cons, List.map_cons, ih hrows]
    rfl

/-- Where every number can be read, each row has an entry. -/
theorem exists_entry (h : Readable rows) (hrow : row ∈ rows) : ∃ lA ∈ readAddrList rows,
    lA.place = placeOf row.1 ∧ parseHex row.2.seq_ctl = some lA.seq_n := by
  induction rows with
  | nil => cases hrow
  | cons row' rows ih =>
    obtain ⟨⟨seq_n, hseq⟩, hrows⟩ := List.forall_mem_cons.1 h
    rw [readAddrList, hseq]
    rcases List.mem_cons.1 hrow with rfl | hrow
    · exact ⟨_, List.mem_cons_self, rfl, hseq⟩
    · obtain ⟨lA, hlA, hplace⟩ := ih hrows hrow
      exact ⟨lA, List.mem_cons_of_mem _ hlA, hplace⟩

/-- The loop ends where it cannot read. -/
theorem readAddrList_append (hrow : parseHex row.2.seq_ctl = none)
    (earlier later : List (Located F × LocalPacket)) :
    readAddrList (earlier ++ row :: later) = readAddrList earlier := by
  induction earlier with
  | nil => simp [readAddrList, hrow]
  | cons row' earlier ih =>
    rw [List.cons_append, readAddrList, readAddrList, ih]

/-- Whatever is read, the devices that are shown are no more than the addresses. -/
theorem devices_count_le_total_address [Field F] [LinearOrder F] [SquareRoot F]
    [IsStrictOrderedRing F] (h : IsResult macs local_packets rows) :
    (updateChartErrClick (readAddrList rows)).devices_count ≤ total_address macs := by
  refine (withinBounds _).count_le.trans ?_
  refine ((List.nodup_dedup _).subperm fun mac hmac => ?_).length_le
  obtain ⟨lA, hlA, rfl⟩ := List.mem_map.1 (List.mem_dedup.1 hmac)
  obtain ⟨row, hrow, hplace, -⟩ := mem_readAddrList hlA
  have hmac : lA.mac = row.1.mac := (Prod.mk.inj hplace).1
  rw [List.mem_dedup, hmac]
  exact List.mem_map_of_mem (mem_joined.1 (h.groups.subset row hrow)).1

/-! ## The counts -/

/-- All rows of a group are of one address at one place. -/
def Agree (macs : List (Located F)) (local_packets : List LocalPacket) : Prop :=
  ∀ row ∈ joined macs local_packets, ∀ row' ∈ joined macs local_packets,
    groupKey row = groupKey row' → placeOf row.1 = placeOf row'.1

/-- Where every localisation is read once, the rows of a group agree. -/
theorem ReadOnce.agree (h : ReadOnce macs local_packets) : Agree macs local_packets := by
  intro row hrow row' hrow' hkey
  obtain ⟨hm, hp, haddr⟩ := mem_joined.1 hrow
  obtain ⟨hm', hp', haddr'⟩ := mem_joined.1 hrow'
  obtain ⟨htime, hseq⟩ := Prod.mk.inj hkey
  refine h.same_place _ hm _ hm' ?_ htime
  by_contra hmac
  exact h.apart _ hm _ hm' htime hmac (mem_seqsOf.2 ⟨_, hp, haddr, rfl⟩)
    (mem_seqsOf.2 ⟨_, hp', haddr', hseq.symm⟩)

variable [DecidableEq F]

/-- Of each localisation as many rows are read as its address has sequence numbers. -/
theorem count_rows (hagree : Agree macs local_packets) (h : IsResult macs local_packets rows)
    (hm : m ∈ macs) : (rows.map fun row => placeOf row.1).count (placeOf m) =
      (seqsOf local_packets m.mac).length := by
  have hkeys : (((joined macs local_packets).filter
      fun row => decide (placeOf row.1 = placeOf m)).map groupKey).dedup.Perm
        ((seqsOf local_packets m.mac).map (m.timestamp, ·)) := by
    refine (List.perm_ext_iff_of_nodup (List.nodup_dedup _) ?_).2 fun key => ?_
    · exact (List.nodup_dedup _).map fun _ _ h => (Prod.mk.inj h).2
    rw [List.mem_dedup, List.mem_map, List.mem_map]
    constructor
    · rintro ⟨row, hrow, rfl⟩
      obtain ⟨hrow, hplace⟩ := List.mem_filter.1 hrow
      obtain ⟨-, hp, haddr⟩ := mem_joined.1 hrow
      obtain ⟨hmac, htime, -⟩ := placeOf_eq_iff.1 (of_decide_eq_true hplace)
      exact ⟨_, mem_seqsOf.2 ⟨_, hp, haddr.trans hmac, rfl⟩, by rw [← htime]; rfl⟩
    · rintro ⟨seq_ctl, hseq, rfl⟩
      obtain ⟨p, hp, haddr, rfl⟩ := mem_seqsOf.1 hseq
      exact ⟨(m, p), List.mem_filter.2 ⟨mem_joined.2 ⟨hm, hp, haddr⟩, by simp⟩, rfl⟩
  rw [List.count_eq_countP, List.countP_map, List.countP_eq_length_filter]
  refine (h.groups.length_filter (fun row => decide (placeOf row.1 = placeOf m)) ?_).trans ?_
  · intro row hrow row' hrow' hkey
    rw [hagree row hrow row' hrow' hkey]
  · rw [hkeys.length_eq, List.length_map]

/-- A place occurs as often as its address is localised at that time. -/
theorem count_macs (hsame : ∀ m' ∈ macs, m.mac = m'.mac → m.timestamp = m'.timestamp →
    placeOf m = placeOf m') : (macs.map placeOf).count (placeOf m) = localisations macs m := by
  rw [List.count_eq_countP, List.countP_map, localisations]
  refine List.countP_congr fun m' hm' => ?_
  simp only [Function.comp_apply, beq_iff_eq, decide_eq_true_eq]
  constructor
  · intro hplace
    exact ⟨(placeOf_eq_iff.1 hplace).1, (placeOf_eq_iff.1 hplace).2.1⟩
  · rintro ⟨hmac, htime⟩
    exact (hsame m' hm' hmac.symm htime.symm).symm

/-- On tables that meet the condition every result is faithful. -/
theorem ReadOnce.faithful (h : ReadOnce macs local_packets)
    (hrows : IsResult macs local_packets rows) :
    Faithful macs local_packets (readAddrList rows) := by
  have hseq : ∀ row ∈ rows, ∃ seq_n, parseHex row.2.seq_ctl = some seq_n ∧ ∃ p ∈ local_packets,
      p.addr = row.1.mac ∧ p.timestamp = row.1.timestamp ∧ parseHex p.seq_ctl = some seq_n := by
    intro row hrow
    obtain ⟨hm, hp, haddr⟩ := mem_joined.1 (hrows.groups.subset row hrow)
    exact h.captured row.1 hm _ (mem_seqsOf.2 ⟨_, hp, haddr, rfl⟩)
  constructor
  case once =>
    rw [map_place_readAddrList fun row hrow => (hseq row hrow).imp fun _ h => h.1]
    refine List.perm_iff_count.2 fun place => ?_
    by_cases hplace : ∃ m ∈ macs, placeOf m = place
    · obtain ⟨m, hm, rfl⟩ := hplace
      rw [count_rows h.agree hrows hm, count_macs (h.same_place m hm), h.as_many m hm]
    · rw [List.count_eq_zero.2, List.count_eq_zero.2]
      · exact fun hmem => hplace (List.mem_map.1 hmem)
      · intro hmem
        obtain ⟨row, hrow, rfl⟩ := List.mem_map.1 hmem
        exact hplace ⟨row.1, (mem_joined.1 (hrows.groups.subset row hrow)).1, rfl⟩
  case captured =>
    intro lA hlA
    obtain ⟨row, hrow, hplace, hlAseq⟩ := mem_readAddrList hlA
    obtain ⟨seq_n, hrowseq, p, hp, haddr, htime, hpseq⟩ := hseq row hrow
    obtain ⟨hmac, hticks, -⟩ := Prod.mk.inj hplace |>.imp_right Prod.mk.inj
    rw [hlAseq] at hrowseq
    obtain rfl := Option.some.inj hrowseq
    exact ⟨p, hp, haddr.trans hmac.symm, by rw [htime, hticks], hpseq⟩

/-! ## The results the server may choose -/

/-- Every result of the query is read faithfully. -/
def AlwaysFaithful (macs : List (Located F)) (local_packets : List LocalPacket) : Prop :=
  ∀ rows, IsResult macs local_packets rows → Faithful macs local_packets (readAddrList rows)

/-- A row can be read, in front of the other rows of its time. -/
theorem exists_result_first (hrow : row ∈ joined macs local_packets) :
    ∃ earlier later, IsResult macs local_packets (earlier ++ row :: later) ∧
      ∀ row' ∈ earlier, row'.1.timestamp < row.1.timestamp := by
  obtain ⟨out, hout, hmem⟩ :
      ∃ out, OneOfEach groupKey (joined macs local_packets) out ∧ row ∈ out := exists_oneOfEach hrow
  -- the row comes first among those of its time if the others are half a unit later
  obtain ⟨hsorted, hpairwise⟩ := hout.sorted fun row' =>
    2 * row'.1.timestamp + if row' = row then 0 else 1
  obtain ⟨earlier, later, heq⟩ := List.append_of_mem
    ((List.mergeSort_perm _ _).symm.subset hmem)
  rw [heq] at hsorted hpairwise
  refine ⟨earlier, later, ⟨hsorted, hpairwise.imp fun hle => ?_⟩, fun row' hrow' => ?_⟩
  · split_ifs at hle <;> omega
  · have hne : row' ≠ row := by
      rintro rfl
      have hnodup := hsorted.nodup
      rw [List.map_append, List.nodup_append] at hnodup
      exact hnodup.2.2 _ (List.mem_map_of_mem hrow') _ List.mem_cons_self rfl
    have hle := (List.pairwise_append.1 hpairwise).2.2 row' hrow' row (by simp)
    rw [if_neg hne, if_pos rfl] at hle
    omega

/-- Where every result is faithful, every number can be read: one that cannot would hide the
localisations of its time. -/
theorem readable_of_faithful (hclaim : AlwaysFaithful macs local_packets) :
    Readable (joined macs local_packets) := by
  intro row hrow
  by_contra hnot
  have hnone : parseHex row.2.seq_ctl = none := by
    rw [Option.eq_none_iff_forall_not_mem]
    exact fun seq_n hseq => hnot ⟨seq_n, hseq⟩
  obtain ⟨earlier, later, hresult, hearlier⟩ := exists_result_first hrow
  have honce := (hclaim _ hresult).once
  rw [readAddrList_append hnone] at honce
  obtain ⟨lA, hlA, hplace⟩ := List.mem_map.1 (honce.symm.subset
    (List.mem_map_of_mem (mem_joined.1 hrow).1))
  obtain ⟨row', hrow', hplace', -⟩ := mem_readAddrList hlA
  have htime := (placeOf_eq_iff.1 (hplace'.symm.trans hplace)).2.1
  exact absurd (hearlier row' hrow') (by omega)

/-- Where every result is faithful, its rows are those of the localisations. -/
theorem perm_of_faithful (hclaim : AlwaysFaithful macs local_packets)
    (hrows : IsResult macs local_packets rows) :
    (rows.map fun row => placeOf row.1).Perm (macs.map placeOf) := by
  rw [← map_place_readAddrList fun row hrow =>
    readable_of_faithful hclaim row (hrows.groups.subset row hrow)]
  exact (hclaim rows hrows).once

/-- The rows of a group agree: the server may choose either of two. -/
theorem agree_of_faithful (hclaim : AlwaysFaithful macs local_packets) :
    Agree macs local_packets := by
  intro row hrow row' hrow' hkey
  obtain ⟨earlier, later, hresult, -⟩ := exists_result_first hrow
  have hresult' : IsResult macs local_packets (earlier ++ row' :: later) := by
    refine ⟨hresult.groups.replace hrow' hkey.symm, ?_⟩
    have htime : row'.1.timestamp = row.1.timestamp := (Prod.mk.inj hkey).1.symm
    have hordered := hresult.ordered
    rw [List.pairwise_append, List.pairwise_cons] at hordered ⊢
    simpa [htime] using hordered
  have hperm := (perm_of_faithful hclaim hresult).trans (perm_of_faithful hclaim hresult').symm
  rw [List.map_append, List.map_append, List.perm_append_left_iff, List.map_cons, List.map_cons,
    ← List.singleton_append, ← List.singleton_append (l := later.map _),
    List.perm_append_right_iff] at hperm
  exact List.singleton_perm_singleton.1 hperm

/-- Where every result is faithful, every address has a packet. -/
theorem exists_packet (hclaim : AlwaysFaithful macs local_packets) (hm : m ∈ macs) :
    ∃ p ∈ local_packets, p.addr = m.mac := by
  have hfirsts := (oneOfEach_firsts groupKey (joined macs local_packets)).sorted (·.1.timestamp)
  obtain ⟨row, hrow, hplace⟩ := List.mem_map.1 ((perm_of_faithful hclaim
    ⟨hfirsts.1, hfirsts.2⟩).symm.subset (List.mem_map_of_mem hm))
  obtain ⟨-, hp, haddr⟩ := mem_joined.1 (hfirsts.1.subset row hrow)
  exact ⟨row.2, hp, haddr.trans (placeOf_eq_iff.1 hplace).1⟩

/-- Where every result is faithful, every localisation is read once. -/
theorem readOnce_of_faithful (hclaim : AlwaysFaithful macs local_packets) :
    ReadOnce macs local_packets := by
  have hagree := agree_of_faithful hclaim
  have hsame : ∀ m ∈ macs, ∀ m' ∈ macs, m.mac = m'.mac → m.timestamp = m'.timestamp →
      placeOf m = placeOf m' := by
    intro m hm m' hm' hmac htime
    obtain ⟨p, hp, haddr⟩ := exists_packet hclaim hm
    exact hagree (m, p) (mem_joined.2 ⟨hm, hp, haddr⟩) (m', p)
      (mem_joined.2 ⟨hm', hp, haddr.trans hmac⟩) (by rw [groupKey, groupKey, htime])
  constructor
  case same_place => exact hsame
  case as_many =>
    intro m hm
    obtain ⟨p, hp, haddr⟩ := exists_packet hclaim hm
    have hrow : (m, p) ∈ joined macs local_packets := mem_joined.2 ⟨hm, hp, haddr⟩
    obtain ⟨earlier, later, hresult, -⟩ := exists_result_first hrow
    rw [← count_macs (hsame m hm), ← count_rows hagree hresult hm]
    exact (List.perm_iff_count.1 (perm_of_faithful hclaim hresult) _).symm
  case apart =>
    intro m hm m' hm' htime hmac seq_ctl hseq hseq'
    obtain ⟨p, hp, haddr, rfl⟩ := mem_seqsOf.1 hseq
    obtain ⟨p', hp', haddr', heq⟩ := mem_seqsOf.1 hseq'
    refine hmac (placeOf_eq_iff.1 (hagree (m, p) (mem_joined.2 ⟨hm, hp, haddr⟩) (m', p')
      (mem_joined.2 ⟨hm', hp', haddr'⟩) ?_)).1
    rw [groupKey, groupKey, htime, heq]
  case captured =>
    intro m hm seq_ctl hseq
    obtain ⟨p, hp, haddr, rfl⟩ := mem_seqsOf.1 hseq
    have hrow : (m, p) ∈ joined macs local_packets := mem_joined.2 ⟨hm, hp, haddr⟩
    obtain ⟨earlier, later, hresult, -⟩ := exists_result_first hrow
    have hreadable : Readable (earlier ++ (m, p) :: later) := fun row hrow =>
      readable_of_faithful hclaim row (hresult.groups.subset row hrow)
    have hmem : (m, p) ∈ earlier ++ (m, p) :: later := by simp
    obtain ⟨lA, hlA, hplace, hseq_n⟩ := exists_entry hreadable hmem
    obtain ⟨p', hp', haddr', htime', hseq'⟩ := (hclaim _ hresult).captured lA hlA
    obtain ⟨hmac, hticks, -⟩ := Prod.mk.inj hplace |>.imp_right Prod.mk.inj
    exact ⟨lA.seq_n, hseq_n, p', hp', haddr'.trans hmac, ticks_inj.1 (htime'.trans hticks), hseq'⟩

/-- **Each localisation once.** Every result of the query is read as one entry for each localisation
of the interval, with the number of a packet of that time, if and only if the tables hold as many
sequence numbers of each address as localisations at each time, all of that time, no two addresses
share one, and no two localisations of an address at one time are apart. -/
theorem addrList_iff (timestart timestop : ℕ) (local_macs : List (Located F))
    (local_packets : List LocalPacket) :
    AlwaysFaithful (between timestart timestop local_macs) local_packets ↔
      ReadOnce (between timestart timestop local_macs) local_packets :=
  ⟨readOnce_of_faithful, fun h _ hrows => h.faithful hrows⟩

end

/-- A localisation of an address that has sent two packets. -/
theorem two_packets :
    ¬ ∀ (timestart timestop : ℕ) (local_macs : List (Located ℚ)) (local_packets : List LocalPacket),
      (∀ m ∈ local_macs, ∃ p ∈ local_packets, p.addr = m.mac) →
        AlwaysFaithful (between timestart timestop local_macs) local_packets := by
  intro hclaim
  have h := hclaim 0 200 [⟨['a'], 0, 0, 100⟩]
    [⟨['a'], 100, ['0', '0', '0', '1'], 0⟩, ⟨['a'], 100, ['0', '0', '0', '2'], 0⟩] (by simp)
  have hcount := (readOnce_of_faithful h).as_many ⟨['a'], 0, 0, 100⟩ (by decide)
  exact absurd hcount (by decide)

end DataWindow

end DetectionSystem
