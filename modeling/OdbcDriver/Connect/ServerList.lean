import OdbcDriver.Encoding.Ascii
import OdbcDriver.Lib.Tokens

/-!
# Lists of servers

`server` and `port` may be lists with commas. `validate_server_port` counts their elements before
libpq is given the texts, and `init_conn` takes them apart for the lists of coordinators. Both go by
`strtok`, which does not see an element that is empty, and each takes no more elements than its
arrays hold: the one stops there, the other gives up.

* `split_eq`: what the splitting takes;
* `init_lists_eq`: the lists of coordinators, when nothing is left out;
* `server_list_iff`: the texts whose elements are counted and paired as they are written.
-/

namespace OdbcDriver.Servers

open Tokens

/-- `MAX_PARTS` -/
def MAX_PARTS : ℕ := 16

/-- `MAX_CN` -/
def MAX_CN : ℕ := 128

def LARGE_REGISTRY_LEN : ℕ := 4096
def MEDIUM_REGISTRY_LEN : ℕ := 256
def SMALL_REGISTRY_LEN : ℕ := 10

/-- A comma. -/
def comma : Byte := 0x2c

/-- `STRCPY_FIXED` into an array of a size. -/
def strcpyFixed (size : ℕ) (s : List Byte) : List Byte := s.take (size - 1)

/-- The texts of `ConnInfo`, in arrays of `LARGE_REGISTRY_LEN`. -/
structure ConnInfo where
  server : List Byte
  port : List Byte
  server_lt : server.length < LARGE_REGISTRY_LEN
  port_lt : port.length < LARGE_REGISTRY_LEN

/-! ### The driver -/

/-- `split_host_or_port_with_limit`: the array, and the length to which the elements are added. The
count is the number of entries. -/
def split_host_or_port_with_limit (str : List Byte) (total_length : ℕ) : List (List Byte) × ℕ :=
  let result_array := take comma MAX_PARTS str
  (result_array, total_length + (result_array.map List.length).sum)

/-- What `validate_server_port` returns: `rc`, `host_number` and `port_number`. -/
structure Validated where
  rc : ℤ
  host_number : ℕ
  port_number : ℕ
deriving DecidableEq, Repr

/-- `validate_server_port` -/
def validate_server_port (ci : ConnInfo) : Validated :=
  if ci.server = [] ∨ ci.port = [] then ⟨-2, 0, 0⟩
  else
    let host_number := (split_host_or_port_with_limit ci.server 0).1.length
    let port_number := (split_host_or_port_with_limit ci.port 0).1.length
    if host_number ≠ port_number ∧ host_number ≠ 1 ∧ port_number ≠ 1 then
      ⟨-3, host_number, port_number⟩
    else ⟨0, host_number, port_number⟩

/-- `CnEntry`: the lists of one entry. -/
structure CnEntry where
  ip_list : List (List Byte)
  port_list : List (List Byte)
deriving DecidableEq, Repr

/-- The lists that `init_conn` makes, for both of its entries alike; none where it returns
`SQL_ERROR`. -/
def init_lists (ci : ConnInfo) : Option CnEntry := do
  let server := strcpyFixed LARGE_REGISTRY_LEN ci.server
  let port := strcpyFixed LARGE_REGISTRY_LEN ci.port
  let ips ← collect comma MAX_CN server
  let ports ← collect comma MAX_CN port
  let ip_list := ips.map (strcpyFixed MEDIUM_REGISTRY_LEN)
  let port_list := ports.map (strcpyFixed SMALL_REGISTRY_LEN)
  -- a single port is the port of every coordinator
  let port_list :=
    if port_list.length = 1 then
      port_list ++ List.replicate (ip_list.length - 1) (port_list.headD [])
    else port_list
  if ip_list.length ≠ port_list.length then none else some ⟨ip_list, port_list⟩

/-! ### As the lists are written -/

/-- The elements of a list. -/
def elements (s : List Byte) : List (List Byte) := s.splitOn comma

/-- Every element has room in its array. -/
structure Fitting (ci : ConnInfo) : Prop where
  server_fits : ∀ e ∈ elements ci.server, e.length < MEDIUM_REGISTRY_LEN
  port_fits : ∀ e ∈ elements ci.port, e.length < SMALL_REGISTRY_LEN

/-- The port of each host. -/
def portsFor (ci : ConnInfo) : List (List Byte) :=
  if (elements ci.port).length = 1 then
    List.replicate (elements ci.server).length ((elements ci.port).headD [])
  else elements ci.port

/-- The lists are of one length, or one of them has a single element. -/
def Matching (ci : ConnInfo) : Prop :=
  (elements ci.server).length = (elements ci.port).length ∨ (elements ci.server).length = 1 ∨
    (elements ci.port).length = 1

/-- What is to become of the two texts. -/
structure Right (ci : ConnInfo) : Prop where
  accepted : (validate_server_port ci).rc = 0 ↔ ci.server ≠ [] ∧ ci.port ≠ [] ∧ Matching ci
  counted : ci.server ≠ [] → ci.port ≠ [] →
    (validate_server_port ci).host_number = (elements ci.server).length ∧
      (validate_server_port ci).port_number = (elements ci.port).length
  paired : ci.server ≠ [] → ci.port ≠ [] →
    (elements ci.server).length = (elements ci.port).length ∨ (elements ci.port).length = 1 →
      (init_lists ci).map (fun entry => entry.ip_list.zip entry.port_list) =
        some ((elements ci.server).zip (portsFor ci))

/-! ### When nothing is left out -/

/-- No element is empty, and there are not more than the arrays hold. -/
def Plain (s : List Byte) : Prop := (∀ e ∈ elements s, e ≠ []) ∧ (elements s).length ≤ MAX_PARTS

theorem length_split (s : List Byte) (n : ℕ) :
    (split_host_or_port_with_limit s n).1.length = min MAX_PARTS (words comma s).length := by
  rw [split_host_or_port_with_limit, take_tokens, List.length_take]

theorem length_words_le (s : List Byte) : (words comma s).length ≤ (elements s).length :=
  List.length_filter_le _ _

/-- The elements are counted exactly when none is left out. -/
theorem count_eq_iff (s : List Byte) :
    (split_host_or_port_with_limit s 0).1.length = (elements s).length ↔ Plain s := by
  have hle := length_words_le s
  rw [length_split, Plain, elements, ← words_eq_iff]
  rw [elements] at hle
  constructor
  · intro h
    omega
  · rintro ⟨hwords, hmax⟩
    omega

theorem strcpyFixed_eq {size : ℕ} {s : List Byte} (h : s.length < size) : strcpyFixed size s = s :=
  List.take_of_length_le (by omega)

theorem map_strcpyFixed {size : ℕ} {l : List (List Byte)} (h : ∀ e ∈ l, e.length < size) :
    l.map (strcpyFixed size) = l :=
  (List.map_congr_left fun e he => strcpyFixed_eq (h e he)).trans (List.map_id l)

theorem collect_plain {s : List Byte} (h : Plain s) :
    collect comma MAX_CN s = some (elements s) := by
  have hwords : words comma s = elements s := words_of_forall h.1
  have hmax : MAX_PARTS ≤ MAX_CN := by decide
  rw [collect_tokens, hwords, if_pos (h.2.trans hmax)]

/-- The lists of coordinators are the lists as they are written. -/
theorem init_lists_eq {ci : ConnInfo} (hfit : Fitting ci) (hserver : Plain ci.server)
    (hport : Plain ci.port) :
    init_lists ci = if (elements ci.server).length = (portsFor ci).length then
      some ⟨elements ci.server, portsFor ci⟩ else none := by
  have hips : (elements ci.server).map (strcpyFixed MEDIUM_REGISTRY_LEN) = elements ci.server :=
    map_strcpyFixed hfit.server_fits
  have hports : (elements ci.port).map (strcpyFixed SMALL_REGISTRY_LEN) = elements ci.port :=
    map_strcpyFixed hfit.port_fits
  have hone : 0 < (elements ci.server).length :=
    List.length_pos_iff.mpr (List.splitOn_ne_nil comma ci.server)
  simp only [init_lists, strcpyFixed_eq ci.server_lt, strcpyFixed_eq ci.port_lt,
    collect_plain hserver, collect_plain hport, Option.bind_eq_bind, Option.bind_some, hips,
    hports]
  have hsame : (if (elements ci.port).length = 1 then
      elements ci.port ++ List.replicate ((elements ci.server).length - 1)
        ((elements ci.port).headD []) else elements ci.port) = portsFor ci := by
    rw [portsFor]
    split
    · rename_i hsingle
      obtain ⟨p, hp⟩ := List.length_eq_one_iff.mp hsingle
      rw [hp, List.headD_cons, List.singleton_append, ← List.replicate_succ,
        Nat.sub_add_cancel hone]
    · rfl
  rw [hsame]
  split <;> simp_all

theorem validate_plain {ci : ConnInfo} (hserver : ci.server ≠ []) (hport : ci.port ≠ []) :
    (validate_server_port ci).host_number = (split_host_or_port_with_limit ci.server 0).1.length ∧
      (validate_server_port ci).port_number =
        (split_host_or_port_with_limit ci.port 0).1.length := by
  rw [validate_server_port, if_neg (by simp [hserver, hport])]
  dsimp only
  split <;> exact ⟨rfl, rfl⟩

/-- **Lists of servers.** Texts whose elements have room are accepted, counted and paired as they are
written exactly if one of the texts is empty, or no element of either is empty and neither has more
than `MAX_PARTS` of them. -/
theorem server_list_iff (ci : ConnInfo) (hfit : Fitting ci) :
    Right ci ↔ ci.server = [] ∨ ci.port = [] ∨ Plain ci.server ∧ Plain ci.port := by
  constructor
  · intro h
    by_cases hserver : ci.server = []
    · exact Or.inl hserver
    · by_cases hport : ci.port = []
      · exact Or.inr (Or.inl hport)
      · obtain ⟨hhosts, hports⟩ := h.counted hserver hport
        obtain ⟨hhosts', hports'⟩ := validate_plain hserver hport
        exact Or.inr (Or.inr ⟨(count_eq_iff _).mp (hhosts'.symm.trans hhosts),
          (count_eq_iff _).mp (hports'.symm.trans hports)⟩)
  · intro h
    by_cases hempty : ci.server = [] ∨ ci.port = []
    · refine ⟨?_, fun hs hp => ?_, fun hs hp => ?_⟩
      · rw [validate_server_port, if_pos hempty]
        constructor
        · intro hrc
          exact absurd hrc (by decide)
        · rintro ⟨hs, hp, -⟩
          exact absurd hempty (by simp [hs, hp])
      · exact absurd hempty (by simp [hs, hp])
      · exact absurd hempty (by simp [hs, hp])
    · obtain ⟨hserver, hport⟩ : Plain ci.server ∧ Plain ci.port := by
        rcases h with h | h | h
        · exact absurd (Or.inl h) hempty
        · exact absurd (Or.inr h) hempty
        · exact h
      rw [not_or] at hempty
      have hhosts := (count_eq_iff ci.server).mpr hserver
      have hports := (count_eq_iff ci.port).mpr hport
      refine ⟨?_, fun hs hp => ?_, fun hs hp hmatch => ?_⟩
      · rw [validate_server_port, if_neg (by simpa using hempty)]
        simp only [hhosts, hports, Matching]
        split
        · rename_i hno
          simp only [show ¬ ((-3 : ℤ) = 0) by decide, false_iff]
          tauto
        · rename_i hno
          simp only [true_iff]
          tauto
      · obtain ⟨hhosts', hports'⟩ := validate_plain hs hp
        exact ⟨hhosts'.trans hhosts, hports'.trans hports⟩
      · have hlength : (elements ci.server).length = (portsFor ci).length := by
          rw [portsFor]
          split
          · rw [List.length_replicate]
          · exact hmatch.resolve_right ‹_›
        rw [init_lists_eq hfit hserver hport, if_pos hlength, Option.map_some]

/-- `a,b` and `1,2`. -/
def twoServers : ConnInfo :=
  ⟨[0x61, 0x2c, 0x62], [0x31, 0x2c, 0x32], by decide, by decide⟩

theorem twoServers_right : Right twoServers := by
  refine (server_list_iff twoServers ⟨?_, ?_⟩).mpr (Or.inr (Or.inr ⟨⟨?_, ?_⟩, ?_, ?_⟩)) <;> decide

/-- `a,,b` and `1,2,3` are lists of three, of which two hosts are counted. -/
def emptyServer : ConnInfo :=
  ⟨[0x61, 0x2c, 0x2c, 0x62], [0x31, 0x2c, 0x32, 0x2c, 0x33], by decide, by decide⟩

theorem emptyServer_refused : Fitting emptyServer ∧ ¬ Right emptyServer := by
  refine ⟨⟨by decide, by decide⟩, fun h => ?_⟩
  have hcounted := (h.counted (by decide) (by decide)).1
  exact absurd hcounted (by decide)

end OdbcDriver.Servers
