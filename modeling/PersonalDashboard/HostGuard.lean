import PersonalDashboard.TaskViews
import PersonalDashboard.TextIndices

/-! The guard of the tool server against foreign hosts. -/

set_option autoImplicit false

namespace PersonalDashboard.HostGuard

open PersonalDashboard.TaskViews
open PersonalDashboard.TextIndices

/-- What is used of `toLowerCase`. -/
structure LowerCase where
  apply : String → String
  ascii : ∀ s, (∀ c ∈ s.toList, c.toNat < 128) → (apply s).toList = s.toList.map Char.toLower

/-- The default names and those of `MCP_ALLOWED_HOSTS`. -/
def allowedHosts (toLowerCase : String → String) (env : Option String) : List String :=
  let extra := match env with
    | none => []
    | some names => (names.toList.splitOn ',').map String.ofList
  ["localhost", "127.0.0.1", "::1"] ++
    (extra.map fun h => toLowerCase (jsTrim h)).filter fun host => host ≠ ""

def stripPort (host : List Char) : List Char :=
  if host.head? = some '[' then
    slice host 0 (indexOf host ']' + 1)
  else
    let colon := lastIndexOf host ':'
    if colon > -1 ∧ indexOf host ':' = colon then slice host 0 colon else host

def stripBrackets (host : List Char) : List Char :=
  if host.head? = some '[' ∧ host.getLast? = some ']' then slice host 1 (-1) else host

def hostAllowed (toLowerCase : String → String) (value : Option String)
    (allowed : List String) : Bool :=
  match value with
  | none => false
  | some value =>
      if value = "" then false
      else
        let raw := toLowerCase (jsTrim value)
        let host := String.ofList (stripBrackets (stripPort raw.toList))
        allowed.contains host || allowed.contains raw

/-- Names of hosts; an address stands without its brackets. -/
structure AllowedHosts where
  hosts : List String
  ne_empty : ∀ h ∈ hosts, h ≠ ""
  brackets : ∀ h ∈ hosts, '[' ∉ h.toList ∧ ']' ∉ h.toList

def AllowedHosts.Named (allowed : AllowedHosts) (l : List Char) : Prop :=
  ∃ h ∈ allowed.hosts, h.toList = l

def IsPort (l : List Char) : Prop :=
  l ≠ [] ∧ ∀ c ∈ l, c.isDigit

/-- An allowed host, in brackets or not, and a port or none. -/
inductive HostForm (allowed : AllowedHosts) : List Char → Prop where
  | name {h : List Char} (hh : allowed.Named h) : HostForm allowed h
  | port {h d : List Char} (hh : allowed.Named h) (hcolon : ':' ∉ h) (hd : IsPort d) :
      HostForm allowed (h ++ ':' :: d)
  | bracketed {h : List Char} (hh : allowed.Named h) : HostForm allowed ('[' :: (h ++ [']']))
  | bracketedPort {h d : List Char} (hh : allowed.Named h) (hd : IsPort d) :
      HostForm allowed ('[' :: (h ++ ']' :: ':' :: d))

/-- Behind the only colon after an allowed host stands a port, and behind an allowed host in
brackets nothing else. -/
structure OnlyPortFollows (allowed : AllowedHosts) (w : List Char) : Prop where
  colon : ∀ h rest, w = h ++ ':' :: rest → allowed.Named h → ':' ∉ h → ':' ∉ rest →
    IsPort rest ∨ allowed.Named w
  bracket : ∀ h rest, w = '[' :: (h ++ ']' :: rest) → allowed.Named h →
    rest = [] ∨ ∃ d, rest = ':' :: d ∧ IsPort d

def hostPart (w : List Char) : List Char :=
  stripBrackets (stripPort w)

theorem stripBrackets_of_head? {l : List Char} (h : l.head? ≠ some '[') : stripBrackets l = l := by
  rw [stripBrackets, if_neg fun hand => h hand.1]

theorem hostPart_bracket {s : List Char} (t : List Char) (h : ']' ∉ s) :
    hostPart ('[' :: (s ++ ']' :: t)) = s := by
  have hnot : ']' ∉ '[' :: s := List.not_mem_cons_of_ne_of_not_mem (by decide) h
  have hcut : '[' :: (s ++ ']' :: t) = '[' :: s ++ [']'] ++ t := by simp
  have hindex : indexOf ('[' :: s ++ [']'] ++ t) ']' + 1 = ('[' :: s ++ [']']).length := by
    rw [List.append_assoc, List.singleton_append, indexOf_append_cons hnot, List.length_append]
    rfl
  have hport : stripPort ('[' :: s ++ [']'] ++ t) = '[' :: s ++ [']'] := by
    rw [stripPort, if_pos (by rfl), hindex, slice_append]
  rw [hostPart, hcut, hport, stripBrackets, if_pos ⟨rfl, List.getLast?_concat⟩, slice_inner]

theorem hostPart_open {s : List Char} (h : ']' ∉ s) : hostPart ('[' :: s) = [] := by
  have hnot : ']' ∉ '[' :: s := List.not_mem_cons_of_ne_of_not_mem (by decide) h
  have hport : stripPort ('[' :: s) = [] := by
    rw [stripPort, if_pos (by rfl), indexOf_of_notMem hnot, show (-1 : Int) + 1 = 0 from rfl,
      slice_zero_zero]
  rw [hostPart, hport]
  rfl

theorem head?_append_colon {s t : List Char} :
    (s ++ ':' :: t).head? ≠ some '[' ↔ s.head? ≠ some '[' := by
  cases s with
  | nil =>
      refine iff_of_true (fun h => ?_) fun h => (nomatch h)
      exact absurd (Option.some.inj h) (by decide)
  | cons c s => exact Iff.rfl

theorem hostPart_port {s t : List Char} (hs : ':' ∉ s) (ht : ':' ∉ t) (hhead : s.head? ≠ some '[') :
    hostPart (s ++ ':' :: t) = s := by
  have hhead' : (s ++ ':' :: t).head? ≠ some '[' := head?_append_colon.mpr hhead
  have hport : stripPort (s ++ ':' :: t) = s := by
    rw [stripPort, if_neg hhead', lastIndexOf_append_cons ht, indexOf_append_cons hs,
      if_pos ⟨by omega, rfl⟩, slice_append]
  rw [hostPart, hport, stripBrackets_of_head? hhead]

theorem hostPart_of_notMem {w : List Char} (hhead : w.head? ≠ some '[') (h : ':' ∉ w) :
    hostPart w = w := by
  have hport : stripPort w = w := by
    rw [stripPort, if_neg hhead, lastIndexOf_of_notMem h,
      if_neg fun hand => absurd hand.1 (by decide)]
  rw [hostPart, hport, stripBrackets_of_head? hhead]

theorem hostPart_of_mem {s t : List Char} (hhead : (s ++ ':' :: t).head? ≠ some '[')
    (hs : ':' ∉ s) (ht : ':' ∈ t) : hostPart (s ++ ':' :: t) = s ++ ':' :: t := by
  have hport : stripPort (s ++ ':' :: t) = s ++ ':' :: t := by
    rw [stripPort, if_neg hhead, if_neg]
    rintro ⟨-, heq⟩
    exact (indexOf_eq_lastIndexOf_iff hs).mp heq ht
  rw [hostPart, hport, stripBrackets_of_head? hhead]

section Accepted

variable {allowed : AllowedHosts} {w s t : List Char}

def AllowedHosts.Accepts (allowed : AllowedHosts) (w : List Char) : Prop :=
  allowed.Named (hostPart w) ∨ allowed.Named w

theorem AllowedHosts.Named.ne_nil (h : allowed.Named s) : s ≠ [] := by
  obtain ⟨name, hname, rfl⟩ := h
  exact fun hnil => allowed.ne_empty name hname (String.toList_eq_nil_iff.mp hnil)

theorem AllowedHosts.Named.open_notMem (h : allowed.Named s) : '[' ∉ s := by
  obtain ⟨name, hname, rfl⟩ := h
  exact (allowed.brackets name hname).1

theorem AllowedHosts.Named.close_notMem (h : allowed.Named s) : ']' ∉ s := by
  obtain ⟨name, hname, rfl⟩ := h
  exact (allowed.brackets name hname).2

theorem AllowedHosts.Named.head? (h : allowed.Named s) : s.head? ≠ some '[' :=
  fun hhead => h.open_notMem (List.mem_of_head? hhead)

theorem AllowedHosts.Named.append_ne (h : allowed.Named s) : s ++ t ≠ '[' :: w := by
  intro heq
  cases s with
  | nil => exact h.ne_nil rfl
  | cons c s => exact h.head? (congrArg some (List.cons.inj heq).1)

theorem contains_iff {name : String} : allowed.hosts.contains name ↔ allowed.Named name.toList := by
  rw [List.contains_iff_mem]
  constructor
  · exact fun h => ⟨name, h, rfl⟩
  · rintro ⟨name', h, heq⟩
    exact String.toList_injective heq ▸ h

theorem hostAllowed_iff (lower : LowerCase) (allowed : AllowedHosts) (v : String) :
    hostAllowed lower.apply (some v) allowed.hosts ↔
      allowed.Accepts (lower.apply (jsTrim v)).toList := by
  rw [hostAllowed]
  split
  · rename_i hempty
    have htrim : jsTrim "" = "" := by decide
    have hlower : lower.apply "" = "" :=
      String.toList_injective (lower.ascii "" fun _ hc => absurd hc List.not_mem_nil)
    have hpart : hostPart "".toList = "".toList := hostPart_of_notMem (by decide) (by decide)
    rw [hempty, htrim, hlower, AllowedHosts.Accepts, hpart, or_self]
    exact iff_of_false Bool.false_ne_true fun h => h.ne_nil rfl
  · rw [Bool.or_eq_true, contains_iff, contains_iff, String.toList_ofList]
    exact Iff.rfl

theorem accepts_port (h : allowed.Named s) (hs : ':' ∉ s) (ht : ':' ∉ t) :
    allowed.Accepts (s ++ ':' :: t) := by
  refine Or.inl ?_
  rwa [hostPart_port hs ht h.head?]

theorem accepts_bracket (h : allowed.Named s) (t : List Char) :
    allowed.Accepts ('[' :: (s ++ ']' :: t)) := by
  refine Or.inl ?_
  rwa [hostPart_bracket t h.close_notMem]

theorem colon_notMem_of_isPort (h : IsPort t) : ':' ∉ t :=
  fun hmem => absurd (h.2 ':' hmem) (by decide)

theorem HostForm.accepts (h : HostForm allowed w) : allowed.Accepts w := by
  cases h with
  | name hh => exact Or.inr hh
  | port hh hcolon hd => exact accepts_port hh hcolon (colon_notMem_of_isPort hd)
  | bracketed hh => exact accepts_bracket hh []
  | bracketedPort hh hd => exact accepts_bracket hh _

theorem HostForm.onlyPortFollows (h : HostForm allowed w) : OnlyPortFollows allowed w := by
  constructor
  · intro s rest hw hs hcolon hrest
    cases h with
    | name hh => exact Or.inr hh
    | port hh hcolon' hd =>
        obtain ⟨-, rfl⟩ := append_cons_inj hcolon' hcolon hw
        exact Or.inl hd
    | bracketed hh => exact absurd hw.symm hs.append_ne
    | bracketedPort hh hd => exact absurd hw.symm hs.append_ne
  · intro s rest hw hs
    cases h with
    | name hh => exact absurd (hw ▸ List.mem_cons_self) hh.open_notMem
    | port hh _ hd => exact absurd hw hh.append_ne
    | bracketed hh =>
        obtain ⟨-, hnil⟩ := append_cons_inj hh.close_notMem hs.close_notMem (List.cons.inj hw).2
        exact Or.inl hnil.symm
    | bracketedPort hh hd =>
        obtain ⟨-, hport⟩ := append_cons_inj hh.close_notMem hs.close_notMem (List.cons.inj hw).2
        exact Or.inr ⟨_, hport.symm, hd⟩

theorem hostForm_of_bracket (hacc : allowed.Accepts ('[' :: w))
    (honly : OnlyPortFollows allowed ('[' :: w)) : HostForm allowed ('[' :: w) := by
  have hpart : allowed.Named (hostPart ('[' :: w)) :=
    hacc.resolve_right fun h => h.open_notMem List.mem_cons_self
  by_cases hmem : ']' ∈ w
  · obtain ⟨s, t, rfl, hs⟩ := List.eq_append_cons_of_mem hmem
    rw [hostPart_bracket t hs] at hpart
    rcases honly.bracket s t rfl hpart with rfl | ⟨d, rfl, hd⟩
    · exact HostForm.bracketed hpart
    · exact HostForm.bracketedPort hpart hd
  · rw [hostPart_open hmem] at hpart
    exact absurd rfl hpart.ne_nil

theorem hostForm_of_head? (hhead : w.head? ≠ some '[') (hacc : allowed.Accepts w)
    (honly : OnlyPortFollows allowed w) : HostForm allowed w := by
  by_cases hmem : ':' ∈ w
  · obtain ⟨s, t, rfl, hs⟩ := List.eq_append_cons_of_mem hmem
    by_cases ht : ':' ∈ t
    · rw [AllowedHosts.Accepts, hostPart_of_mem hhead hs ht, or_self] at hacc
      exact HostForm.name hacc
    rcases hacc with hpart | hraw
    · rw [hostPart_port hs ht (head?_append_colon.mp hhead)] at hpart
      rcases honly.colon s t rfl hpart hs ht with hd | hraw
      · exact HostForm.port hpart hs hd
      · exact HostForm.name hraw
    · exact HostForm.name hraw
  · rw [AllowedHosts.Accepts, hostPart_of_notMem hhead hmem, or_self] at hacc
    exact HostForm.name hacc

theorem hostForm_of_accepts (hacc : allowed.Accepts w) (honly : OnlyPortFollows allowed w) :
    HostForm allowed w := by
  by_cases hhead : w.head? = some '['
  · cases w with
    | nil => cases hhead
    | cons c w =>
        obtain rfl := Option.some.inj hhead
        exact hostForm_of_bracket hacc honly
  · exact hostForm_of_head? hhead hacc honly

theorem onlyPortFollows_of_imp (h : allowed.Accepts w → HostForm allowed w) :
    OnlyPortFollows allowed w := by
  constructor
  · intro s rest hw hs hcolon hrest
    have hform := h (hw ▸ accepts_port hs hcolon hrest)
    exact hform.onlyPortFollows.colon s rest hw hs hcolon hrest
  · intro s rest hw hs
    have hform := h (hw ▸ accepts_bracket hs rest)
    exact hform.onlyPortFollows.bracket s rest hw hs

end Accepted

/-- The guard accepts exactly the forms of an allowed host where only a port follows one. -/
theorem hostAllowed_iff_hostForm_iff (lower : LowerCase) (allowed : AllowedHosts) (v : String) :
    (hostAllowed lower.apply (some v) allowed.hosts ↔
      HostForm allowed (lower.apply (jsTrim v)).toList) ↔
    OnlyPortFollows allowed (lower.apply (jsTrim v)).toList := by
  rw [hostAllowed_iff]
  constructor
  · exact fun h => onlyPortFollows_of_imp h.mp
  · exact fun honly => ⟨fun hacc => hostForm_of_accepts hacc honly, HostForm.accepts⟩

def asciiLower : LowerCase where
  apply s := String.ofList (s.toList.map Char.toLower)
  ascii _ _ := String.toList_ofList

def localHosts : AllowedHosts where
  hosts := allowedHosts asciiLower.apply none
  ne_empty := by decide
  brackets := by decide

/-- A bracketed address and a name with a colon are accepted with a foreign host behind them. -/
theorem not_hostAllowed_iff_hostForm :
    (hostAllowed asciiLower.apply (some "[::1]evil.com") localHosts.hosts ∧
      ¬ HostForm localHosts (asciiLower.apply (jsTrim "[::1]evil.com")).toList) ∧
    (hostAllowed asciiLower.apply (some "localhost:evil.com") localHosts.hosts ∧
      ¬ HostForm localHosts (asciiLower.apply (jsTrim "localhost:evil.com")).toList) := by
  refine ⟨⟨by decide +kernel, fun h => ?_⟩, ⟨by decide +kernel, fun h => ?_⟩⟩
  · rcases h.onlyPortFollows.bracket "::1".toList "evil.com".toList (by decide +kernel)
      ⟨"::1", by decide, rfl⟩ with hnil | ⟨d, hport, -⟩
    · exact absurd hnil (by decide)
    · exact absurd (show some 'e' = some ':' from congrArg List.head? hport) (by decide)
  · rcases h.onlyPortFollows.colon "localhost".toList "evil.com".toList (by decide +kernel)
      ⟨"localhost", by decide, rfl⟩ (by decide) (by decide) with hport | ⟨name, hname, hw⟩
    · exact absurd (hport.2 'e' (by decide)) (by decide)
    · revert name
      decide +kernel

end PersonalDashboard.HostGuard
