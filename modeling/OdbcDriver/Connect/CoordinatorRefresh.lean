import OdbcDriver.Connect.ServerList
import OdbcDriver.Lib.Run

/-!
# Refreshing the list of coordinators

With `autobalance`, one thread reads the active coordinators from `pgxc_node` again and again, and
puts those that are configured in the place of the list from which connections are made. The other
threads wait for `refresh_flag`.

* `fetchLoop_eq`: what the rows of a round come to;
* `coordinator_refresh_iff`: the runs in which every round leaves what the waiting threads rely on.
-/

namespace OdbcDriver.Coordinators

open Servers

/-- The arrays of a `CnEntry`, and how much of them is used. -/
structure CnArrays where
  ip_list : ℕ → List Byte
  port_list : ℕ → List Byte
  ip_count : ℕ
  port_count : ℕ

/-- The arrays that `init_conn` fills, out of zeros. -/
def CnArrays.ofEntry (entry : CnEntry) : CnArrays where
  ip_list i := entry.ip_list.getD i []
  port_list i := entry.port_list.getD i []
  ip_count := entry.ip_list.length
  port_count := entry.port_list.length

/-- A row of `pgxc_node`, in the two buffers bound to its columns. -/
structure NodeRow where
  node_host : List Byte
  node_port : List Byte
deriving DecidableEq, Repr

/-- The return codes of `SQLFetch` other than `SQL_SUCCESS`. A text that does not fit its buffer is
`SQL_SUCCESS_WITH_INFO`. -/
inductive FetchEnd
  | SQL_NO_DATA
  | SQL_SUCCESS_WITH_INFO
  | SQL_ERROR
  | SQL_INVALID_HANDLE
deriving DecidableEq, Repr

/-- The calls before the rows are fetched, after each of which a round may go to the next one. -/
inductive Preparation
  | allocEnv
  | allocDbc
  | connect
  | allocStmt
  | execDirect
  | bindCol
deriving DecidableEq, Repr

/-- What a round meets: a call that fails, or rows, the end of them, and whether the lock on the
list can be taken and given back. -/
inductive Round
  | failed (call : Preparation)
  | fetched (rows : List NodeRow) (rc : FetchEnd) (locked unlocked : Bool)
deriving DecidableEq, Repr

/-- The list of coordinators, and the variables of the thread. `rounds` is for the statements only:
the rounds that have been made. -/
structure State where
  pgxc_entry : CnArrays
  refresh_flag : Bool
  refresh_count : ℕ
  exited : Bool
  rounds : ℕ

/-! ### The driver -/

/-- `cn_entry_contains` -/
def cn_entry_contains (entry : CnArrays) (host port : List Byte) : Bool :=
  (List.range (min entry.ip_count MAX_CN)).any fun i =>
    stricmp (entry.ip_list i) host && decide (entry.port_list i = port)

/-- What the loop over the rows leaves: the two lists up to `count`, and its variables. -/
structure Fetched where
  temp : List NodeRow
  rc : FetchEnd
  overflow : Bool
  refresh_flag : Bool
deriving DecidableEq, Repr

/-- The loop over the rows. -/
def fetchLoop (orig_entry : CnArrays) (rc : FetchEnd) :
    List NodeRow → List NodeRow → Bool → Fetched
  | [], temp, refresh_flag => ⟨temp, rc, false, refresh_flag⟩
  | row :: rows, temp, refresh_flag =>
    if cn_entry_contains orig_entry row.node_host row.node_port = false then
      fetchLoop orig_entry rc rows temp refresh_flag
    else if MAX_CN ≤ temp.length then ⟨temp, .SQL_ERROR, true, refresh_flag⟩
    else fetchLoop orig_entry rc rows (temp ++ [row]) true

/-- The counts and the first places of the arrays are replaced. -/
def CnArrays.replace (entry : CnArrays) (temp : List NodeRow) : CnArrays where
  ip_list i := (temp[i]?.map NodeRow.node_host).getD (entry.ip_list i)
  port_list i := (temp[i]?.map NodeRow.node_port).getD (entry.port_list i)
  ip_count := temp.length
  port_count := temp.length

/-- One turn of the loop of `read_pgxc_node`. -/
def read_pgxc_node (orig_entry : CnArrays) (s : State) : Round → State
  | .failed _ => { s with rounds := s.rounds + 1 }
  | .fetched rows rc locked unlocked =>
    let fetched := fetchLoop orig_entry rc rows [] s.refresh_flag
    let refresh_count := s.refresh_count + 1
    let refresh_flag :=
      if 10 < refresh_count ∧ fetched.rc = .SQL_ERROR then true else fetched.refresh_flag
    if fetched.overflow = false ∧ fetched.temp.length ≠ 0 ∧ locked = true then
      ⟨s.pgxc_entry.replace fetched.temp, refresh_flag, refresh_count, !unlocked, s.rounds + 1⟩
    else ⟨s.pgxc_entry, refresh_flag, refresh_count, false, s.rounds + 1⟩

/-- The thread. Where the lock cannot be given back, the process ends. -/
def refreshMachine (orig_entry : CnArrays) : Machine State Round Unit where
  step s round := (if s.exited then s else read_pgxc_node orig_entry s round, ())

/-- The thread starts with the list as it is configured. -/
def start (entry : CnEntry) : State := ⟨.ofEntry entry, false, 0, false, 0⟩

/-! ### What the other threads rely on -/

/-- The coordinators of a list. -/
def CnArrays.listing (entry : CnArrays) : List NodeRow :=
  (List.range entry.ip_count).map fun i => ⟨entry.ip_list i, entry.port_list i⟩

/-- A row is a coordinator of a list; the case of a host is of no account. -/
def Configured (entry : CnArrays) (row : NodeRow) : Prop :=
  ∃ node ∈ entry.listing, stricmp node.node_host row.node_host = true ∧
    node.node_port = row.node_port

/-- A list of configured coordinators, with the counts as they should be. -/
structure WellListed (orig_entry entry : CnArrays) : Prop where
  configured : ∀ row ∈ entry.listing, Configured orig_entry row
  same_count : entry.ip_count = entry.port_count
  count_le : entry.ip_count ≤ MAX_CN

/-- The rows that are configured, of which there should not be more than the lists hold. -/
def configuredRows (orig_entry : CnArrays) (rows : List NodeRow) : List NodeRow :=
  rows.filter fun row => cn_entry_contains orig_entry row.node_host row.node_port

/-- A round that does not come to the end of the rows, or has too many of them. -/
def Fails (orig_entry : CnArrays) : Round → Prop
  | .failed _ => True
  | .fetched rows rc _ _ => rc ≠ .SQL_NO_DATA ∨ MAX_CN < (configuredRows orig_entry rows).length

/-- What a round should leave. -/
structure Kept (orig_entry : CnArrays) (s : State) (round : Round) (s' : State) : Prop where
  listed : WellListed orig_entry s'.pgxc_entry
  unchanged : Fails orig_entry round → s'.pgxc_entry.listing = s.pgxc_entry.listing
  flagged : 10 < s'.rounds → s'.refresh_flag = true

/-- A round keeps what the other threads rely on unless the rows break off behind configured ones
that are not the list already, or more than ten rounds have been made without a configured row, and
the rows of this one do not end in an error after ten that were fetched. -/
def Fine (orig_entry : CnArrays) (s : State) : Round → Prop
  | .failed _ => 10 ≤ s.rounds → s.refresh_flag = true
  | .fetched rows rc locked _ =>
    (rc ≠ .SQL_NO_DATA → configuredRows orig_entry rows ≠ [] →
      (configuredRows orig_entry rows).length ≤ MAX_CN → locked = true →
        configuredRows orig_entry rows = s.pgxc_entry.listing) ∧
    (10 ≤ s.rounds → s.refresh_flag = true ∨ configuredRows orig_entry rows ≠ [] ∨
      10 ≤ s.refresh_count ∧ rc = .SQL_ERROR)

/-! ### The list that is configured -/

variable {entry orig_entry : CnArrays} {rows temp : List NodeRow} {rc : FetchEnd} {s : State}

@[simp]
theorem stricmp_self (t : List Byte) : stricmp t t = true := decide_eq_true rfl

theorem length_of_init_lists {ci : ConnInfo} {e : CnEntry} (h : init_lists ci = some e) :
    e.ip_list.length = e.port_list.length ∧ e.ip_list.length ≤ MAX_CN := by
  simp only [init_lists, Tokens.collect_tokens, Option.bind_eq_bind, Option.bind_eq_some_iff,
    Option.ite_none_left_eq_some, Option.ite_none_right_eq_some, Option.some.injEq] at h
  obtain ⟨ips, ⟨hle, rfl⟩, ports, -, hsame, rfl⟩ := h
  refine ⟨not_not.mp hsame, ?_⟩
  rwa [List.length_map]

theorem mem_listing {row : NodeRow} :
    row ∈ entry.listing ↔ ∃ i < entry.ip_count, ⟨entry.ip_list i, entry.port_list i⟩ = row := by
  simp [CnArrays.listing]

/-- The search finds what is configured. -/
theorem cn_entry_contains_iff (h : entry.ip_count ≤ MAX_CN) (row : NodeRow) :
    cn_entry_contains entry row.node_host row.node_port = true ↔ Configured entry row := by
  rw [cn_entry_contains, min_eq_left h, List.any_eq_true]
  constructor
  · rintro ⟨i, hi, hfound⟩
    rw [Bool.and_eq_true, decide_eq_true_eq] at hfound
    exact ⟨_, mem_listing.mpr ⟨i, List.mem_range.mp hi, rfl⟩, hfound⟩
  · rintro ⟨node, hnode, hhost, hport⟩
    obtain ⟨i, hi, rfl⟩ := mem_listing.mp hnode
    refine ⟨i, List.mem_range.mpr hi, ?_⟩
    rw [Bool.and_eq_true, decide_eq_true_eq]
    exact ⟨hhost, hport⟩

theorem wellListed_start {ci : ConnInfo} {e : CnEntry} (h : init_lists ci = some e) :
    WellListed (.ofEntry e) (.ofEntry e) := by
  obtain ⟨hsame, hle⟩ := length_of_init_lists h
  exact ⟨fun row hrow => ⟨row, hrow, stricmp_self _, rfl⟩, hsame, hle⟩

/-! ### One round -/

theorem configuredRows_cons_pos {row : NodeRow}
    (h : cn_entry_contains orig_entry row.node_host row.node_port = true) :
    configuredRows orig_entry (row :: rows) = row :: configuredRows orig_entry rows :=
  List.filter_cons_of_pos h

theorem configuredRows_cons_neg {row : NodeRow}
    (h : cn_entry_contains orig_entry row.node_host row.node_port = false) :
    configuredRows orig_entry (row :: rows) = configuredRows orig_entry rows :=
  List.filter_cons_of_neg (by simp [h])

/-- The loop, where the configured rows have room. -/
theorem fetchLoop_eq (rc : FetchEnd) (refresh_flag : Bool)
    (h : temp.length + (configuredRows orig_entry rows).length ≤ MAX_CN) :
    fetchLoop orig_entry rc rows temp refresh_flag =
      ⟨temp ++ configuredRows orig_entry rows, rc, false,
        refresh_flag || decide (configuredRows orig_entry rows ≠ [])⟩ := by
  induction rows generalizing temp refresh_flag with
  | nil => simp [fetchLoop, configuredRows]
  | cons row rows ih =>
    cases hfound : cn_entry_contains orig_entry row.node_host row.node_port with
    | false =>
      rw [configuredRows_cons_neg hfound] at h ⊢
      rw [fetchLoop, if_pos hfound]
      exact ih refresh_flag h
    | true =>
      rw [configuredRows_cons_pos hfound, List.length_cons] at h
      have hroom : ¬ MAX_CN ≤ temp.length := by omega
      have hrest : (temp ++ [row]).length + (configuredRows orig_entry rows).length ≤ MAX_CN := by
        rw [List.length_append, List.length_singleton]
        omega
      rw [fetchLoop, if_neg (by simp [hfound]), if_neg hroom, ih true hrest,
        configuredRows_cons_pos hfound]
      simp

/-- The loop, where they have not: one of them has been taken before. -/
theorem fetchLoop_overflow (rc : FetchEnd) {refresh_flag : Bool} (hle : temp.length ≤ MAX_CN)
    (hflag : temp.length = MAX_CN → refresh_flag = true)
    (h : MAX_CN < temp.length + (configuredRows orig_entry rows).length) :
    ∃ full, fetchLoop orig_entry rc rows temp refresh_flag = ⟨full, .SQL_ERROR, true, true⟩ := by
  induction rows generalizing temp refresh_flag with
  | nil => exact absurd hle (not_le.mpr h)
  | cons row rows ih =>
    cases hfound : cn_entry_contains orig_entry row.node_host row.node_port with
    | false =>
      rw [configuredRows_cons_neg hfound] at h
      rw [fetchLoop, if_pos hfound]
      exact ih hle hflag h
    | true =>
      rw [configuredRows_cons_pos hfound, List.length_cons] at h
      rw [fetchLoop, if_neg (by simp [hfound])]
      split
      · rename_i hfull
        exact ⟨temp, by rw [hflag (hle.antisymm hfull)]⟩
      · rename_i hroom
        have hnext : (temp ++ [row]).length = temp.length + 1 := List.length_append
        exact ih (by omega) (fun _ => rfl) (by omega)

/-- The list that replaces the other is the rows that were fetched. -/
theorem listing_replace (entry : CnArrays) (temp : List NodeRow) :
    (entry.replace temp).listing = temp := by
  apply List.ext_getElem
  · simp [CnArrays.listing, CnArrays.replace]
  · intro i _ hi
    simp [CnArrays.listing, CnArrays.replace, hi]

theorem wellListed_replace (horig : orig_entry.ip_count ≤ MAX_CN) (entry : CnArrays)
    (h : (configuredRows orig_entry rows).length ≤ MAX_CN) :
    WellListed orig_entry (entry.replace (configuredRows orig_entry rows)) := by
  refine ⟨fun row hrow => ?_, rfl, h⟩
  rw [listing_replace] at hrow
  exact (cn_entry_contains_iff horig row).mp (List.mem_filter.mp hrow).2

/-- What a round with a number of rows the lists can hold leaves. -/
theorem read_pgxc_node_fits (rc : FetchEnd) (locked unlocked : Bool)
    (h : (configuredRows orig_entry rows).length ≤ MAX_CN) :
    read_pgxc_node orig_entry s (.fetched rows rc locked unlocked) =
      let taken := configuredRows orig_entry rows ≠ [] ∧ locked = true
      { pgxc_entry := if taken then s.pgxc_entry.replace (configuredRows orig_entry rows)
          else s.pgxc_entry
        refresh_flag := decide (10 ≤ s.refresh_count ∧ rc = .SQL_ERROR) ||
          (s.refresh_flag || decide (configuredRows orig_entry rows ≠ []))
        refresh_count := s.refresh_count + 1
        exited := decide taken && !unlocked
        rounds := s.rounds + 1 } := by
  have hroom : ([] : List NodeRow).length + (configuredRows orig_entry rows).length ≤ MAX_CN := by
    simpa using h
  have hloop := fetchLoop_eq rc s.refresh_flag hroom
  rw [List.nil_append] at hloop
  simp only [read_pgxc_node, hloop, Nat.lt_succ_iff, ne_eq, List.length_eq_zero_iff, true_and]
  split <;> simp_all

/-- What a round with more rows leaves. -/
theorem read_pgxc_node_overflow (rc : FetchEnd) (locked unlocked : Bool)
    (h : MAX_CN < (configuredRows orig_entry rows).length) :
    read_pgxc_node orig_entry s (.fetched rows rc locked unlocked) =
      ⟨s.pgxc_entry, true, s.refresh_count + 1, false, s.rounds + 1⟩ := by
  have hmany : MAX_CN < ([] : List NodeRow).length + (configuredRows orig_entry rows).length := by
    simpa using h
  have hempty : ([] : List NodeRow).length = MAX_CN → s.refresh_flag = true :=
    fun h => absurd h (by decide)
  obtain ⟨full, hloop⟩ := fetchLoop_overflow rc (Nat.zero_le _) hempty hmany
  simp [read_pgxc_node, hloop]

/-! ### Runs -/

/-- What the other threads rely on before a round. -/
structure Relied (orig_entry : CnArrays) (s : State) : Prop where
  listed : WellListed orig_entry s.pgxc_entry
  flagged : 10 < s.rounds → s.refresh_flag = true

/-- Whatever a round meets, the list stays one of configured coordinators. -/
theorem wellListed_step (horig : orig_entry.ip_count ≤ MAX_CN)
    (h : WellListed orig_entry s.pgxc_entry) (round : Round) :
    WellListed orig_entry ((refreshMachine orig_entry).step s round).1.pgxc_entry := by
  simp only [refreshMachine]
  split
  · exact h
  · cases round with
    | failed call => exact h
    | fetched rows rc locked unlocked =>
      rcases le_or_gt (configuredRows orig_entry rows).length MAX_CN with hle | hgt
      · rw [read_pgxc_node_fits rc locked unlocked hle]
        dsimp only
        split
        · exact wellListed_replace horig _ hle
        · exact h
      · rw [read_pgxc_node_overflow rc locked unlocked hgt]
        exact h

/-- A round leaves what the other threads rely on exactly if it is fine. -/
theorem kept_iff (horig : orig_entry.ip_count ≤ MAX_CN) (h : Relied orig_entry s)
    (round : Round) :
    Kept orig_entry s round ((refreshMachine orig_entry).step s round).1 ↔
      (s.exited = false → Fine orig_entry s round) := by
  have hlisted := wellListed_step horig h.listed round
  by_cases hexited : s.exited = true
  · have hstep : ((refreshMachine orig_entry).step s round).1 = s := if_pos hexited
    rw [hstep]
    constructor
    · intro _ hgo
      exact absurd hexited (by simp [hgo])
    · intro _
      exact ⟨h.listed, fun _ => rfl, h.flagged⟩
  · have hgo : s.exited = false := by simpa using hexited
    have hstep : ((refreshMachine orig_entry).step s round).1 = read_pgxc_node orig_entry s round :=
      if_neg hexited
    rw [hstep] at hlisted ⊢
    have hsplit : Kept orig_entry s round (read_pgxc_node orig_entry s round) ↔
        (Fails orig_entry round →
          (read_pgxc_node orig_entry s round).pgxc_entry.listing = s.pgxc_entry.listing) ∧
        (10 < (read_pgxc_node orig_entry s round).rounds →
          (read_pgxc_node orig_entry s round).refresh_flag = true) :=
      ⟨fun hk => ⟨hk.unchanged, hk.flagged⟩, fun hk => ⟨hlisted, hk.1, hk.2⟩⟩
    rw [hsplit, imp_iff_right hgo]
    cases round with
    | failed call =>
      simp only [read_pgxc_node, Fine, Nat.lt_succ_iff, implies_true, true_and]
    | fetched rows rc locked unlocked =>
      rcases le_or_gt (configuredRows orig_entry rows).length MAX_CN with hle | hgt
      · rw [read_pgxc_node_fits rc locked unlocked hle]
        refine and_congr ?_ ?_
        · dsimp only
          split
          · rename_i htaken
            rw [listing_replace]
            constructor
            · intro hk hrc _ _ _
              exact hk (Or.inl hrc)
            · rintro hf (hrc | hmany)
              · exact hf hrc htaken.1 hle htaken.2
              · exact absurd hle (not_le.mpr hmany)
          · rename_i hnot
            exact ⟨fun _ _ hne _ hlock => absurd ⟨hne, hlock⟩ hnot, fun _ _ => rfl⟩
        · simp only [Nat.lt_succ_iff, Bool.or_eq_true, decide_eq_true_eq]
          refine imp_congr_right fun _ => ?_
          tauto
      · rw [read_pgxc_node_overflow rc locked unlocked hgt]
        have hne : configuredRows orig_entry rows ≠ [] := by
          rintro hnil
          rw [hnil] at hgt
          exact absurd hgt (Nat.not_lt_zero _)
        constructor
        · intro _
          exact ⟨fun _ _ hle => absurd hle (not_le.mpr hgt), fun _ => Or.inr (Or.inl hne)⟩
        · intro _
          exact ⟨fun _ => rfl, fun _ => rfl⟩

/-- **Refreshing the list of coordinators.** Whatever the rounds meet, the list has only configured
coordinators and its two counts are the same, not above `MAX_CN`. Failed rounds leave it unchanged
and the flag is set after more than ten rounds in exactly the runs whose rounds are fine. -/
theorem coordinator_refresh_iff {ci : ConnInfo} {e : CnEntry} (h : init_lists ci = some e)
    (rounds : List Round) :
    (refreshMachine (.ofEntry e)).AllSteps (fun s round =>
        WellListed (.ofEntry e) ((refreshMachine (.ofEntry e)).step s round).1.pgxc_entry)
      (start e) rounds ∧
    ((refreshMachine (.ofEntry e)).AllSteps (fun s round =>
        Kept (.ofEntry e) s round ((refreshMachine (.ofEntry e)).step s round).1)
      (start e) rounds ↔
      (refreshMachine (.ofEntry e)).AllSteps (fun s round =>
        s.exited = false → Fine (.ofEntry e) s round) (start e) rounds) := by
  have hstart := wellListed_start h
  have horig := hstart.count_le
  constructor
  · have hstep : ∀ s round, WellListed (.ofEntry e) s.pgxc_entry →
        WellListed (.ofEntry e) ((refreshMachine (.ofEntry e)).step s round).1.pgxc_entry :=
      fun _ round hs => wellListed_step horig hs round
    exact Machine.allSteps_of_invariant (fun s round hs => ⟨hstep s round hs, hstep s round hs⟩)
      hstart
  · have hrelied : Relied (.ofEntry e) (start e) :=
      ⟨hstart, fun hlt => absurd hlt (Nat.not_lt_zero 10)⟩
    refine Machine.allSteps_congr (fun s round hs => kept_iff horig hs round)
      (fun s round hs hfine => ?_) hrelied
    have hkept := (kept_iff horig hs round).mpr hfine
    exact ⟨hkept.listed, hkept.flagged⟩

/-- The coordinators `a` at 1 and `b` at 2. -/
def twoEntry : CnEntry := ⟨[[0x61], [0x62]], [[0x31], [0x32]]⟩

theorem init_lists_twoServers : init_lists twoServers = some twoEntry := by decide

/-- Only `a` is active. -/
def oneActive : Round := .fetched [⟨[0x61], [0x31]⟩] .SQL_NO_DATA true true

theorem coordinator_refresh_one :
    (refreshMachine (.ofEntry twoEntry)).AllSteps (fun s round =>
      Kept (.ofEntry twoEntry) s round ((refreshMachine (.ofEntry twoEntry)).step s round).1)
      (start twoEntry) [oneActive] := by
  refine (coordinator_refresh_iff init_lists_twoServers [oneActive]).2.mpr ⟨fun _ => ?_, trivial⟩
  exact ⟨fun hrc => absurd rfl hrc, fun hten => absurd hten (by decide)⟩

/-- The rows break off behind the first one, which is what is left of the list. -/
theorem refresh_broken_off :
    ¬ (refreshMachine (.ofEntry twoEntry)).AllSteps (fun s round =>
      Kept (.ofEntry twoEntry) s round ((refreshMachine (.ofEntry twoEntry)).step s round).1)
      (start twoEntry) [.fetched [⟨[0x61], [0x31]⟩] .SQL_ERROR true true] := by
  rintro ⟨hkept, -⟩
  have hsame := hkept.unchanged (Or.inl (by decide))
  exact absurd hsame (by decide)

end OdbcDriver.Coordinators
