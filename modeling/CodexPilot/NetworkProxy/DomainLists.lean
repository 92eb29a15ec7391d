import CodexPilot.NetworkProxy.Allowlist
import CodexPilot.NetworkProxy.Runtime

/-!
# The list of a host

A host is on the list of its effective permission.  Giving a host a permission takes its entries
away first, however they are written, and leaves the entries of other hosts alone.
-/

namespace CodexPilot.NetworkProxy

open RustStd

/-! ## Effective entries -/

section Effective

variable {entries effective : List NetworkDomainPermissionEntry}
  {entry other : NetworkDomainPermissionEntry}

theorem rank_injective : Function.Injective NetworkDomainPermission.rank := by
  intro left right same
  cases left <;> cases right <;> first | rfl | cases same

theorem effectiveEntries_concat (entries : List NetworkDomainPermissionEntry)
    (entry : NetworkDomainPermissionEntry) :
    effectiveEntries (entries ++ [entry]) = recordEntry (effectiveEntries entries) entry :=
  List.foldl_concat _ _ _ _

/-- The patterns with an effective permission are those with an entry. -/
theorem exists_pattern_effectiveEntries (entries : List NetworkDomainPermissionEntry)
    (pattern : Text) :
    (∃ entry ∈ effectiveEntries entries, entry.pattern = pattern) ↔
      ∃ entry ∈ entries, entry.pattern = pattern := by
  induction entries using List.reverseRecOn with
  | nil => rfl
  | append_singleton entries entry ih =>
      have either : (∃ existing ∈ entries ++ [entry], existing.pattern = pattern) ↔
          (∃ existing ∈ effectiveEntries entries, existing.pattern = pattern) ∨
            entry.pattern = pattern := by
        rw [ih]
        simp [or_and_right, exists_or]
      rw [either, effectiveEntries_concat, recordEntry]
      split
      case isTrue known =>
        obtain ⟨existing, listed, same⟩ := List.any_eq_true.mp known
        have kept (one : NetworkDomainPermissionEntry) :
            (if one.pattern = entry.pattern ∧ one.permission.rank < entry.permission.rank then entry
              else one).pattern = one.pattern := by
          split
          case isTrue taken => exact taken.1.symm
          case isFalse => rfl
        simp only [List.mem_map, exists_exists_and_eq_and, kept]
        refine ⟨Or.inl, fun found => found.elim id fun last => ?_⟩
        exact ⟨existing, listed, (eq_of_beq same).trans last⟩
      case isFalse => simp [or_and_right, exists_or]

/-- An entry is listed, and no other one with its pattern is stricter. -/
def Strictest (entries : List NetworkDomainPermissionEntry) (entry : NetworkDomainPermissionEntry) :
    Prop :=
  entry ∈ entries ∧ ∀ other ∈ entries, other.pattern = entry.pattern →
    other.permission.rank ≤ entry.permission.rank

/-- Behind a last entry with a pattern of its own nothing changes. -/
theorem strictest_concat_of_fresh {last : NetworkDomainPermissionEntry}
    (fresh : ∀ other ∈ entries, other.pattern ≠ last.pattern) :
    Strictest (entries ++ [last]) entry ↔ Strictest entries entry ∨ entry = last := by
  constructor
  · rintro ⟨listed, strictest⟩
    obtain earlier | rfl := List.mem_append.mp listed |>.imp_right List.mem_singleton.mp
    · exact Or.inl ⟨earlier, fun other member => strictest other (List.mem_append_left _ member)⟩
    · exact Or.inr rfl
  · rintro (⟨listed, strictest⟩ | rfl)
    · refine ⟨List.mem_append_left _ listed, fun other member same => ?_⟩
      obtain earlier | rfl := List.mem_append.mp member |>.imp_right List.mem_singleton.mp
      · exact strictest other earlier same
      · exact absurd same.symm (fresh entry listed)
    · refine ⟨List.mem_append_right _ List.mem_cons_self, fun other member same => ?_⟩
      obtain earlier | rfl := List.mem_append.mp member |>.imp_right List.mem_singleton.mp
      · exact absurd same (fresh other earlier)
      · exact le_rfl

/-- A last entry with a known pattern replaces the strictest one with it, where it is stricter. -/
theorem strictest_concat_of_known {last existing : NetworkDomainPermissionEntry}
    (known : Strictest entries existing) (same : existing.pattern = last.pattern) :
    Strictest (entries ++ [last]) entry ↔
      ∃ one, Strictest entries one ∧
        (if one.pattern = last.pattern ∧ one.permission.rank < last.permission.rank then last
          else one) = entry := by
  constructor
  · rintro ⟨listed, strictest⟩
    obtain earlier | rfl := List.mem_append.mp listed |>.imp_right List.mem_singleton.mp
    · refine ⟨entry, ⟨earlier, fun other member => strictest other (List.mem_append_left _ member)⟩,
        if_neg fun taken => ?_⟩
      have bounded := strictest last (List.mem_append_right _ List.mem_cons_self) taken.1.symm
      exact absurd taken.2 (Nat.not_lt.mpr bounded)
    · have bounded := strictest existing (List.mem_append_left _ known.1) same
      refine ⟨existing, known, ?_⟩
      split
      case isTrue => rfl
      case isFalse kept =>
        have equal : existing.permission.rank = entry.permission.rank :=
          le_antisymm bounded (Nat.not_lt.mp fun lower => kept ⟨same, lower⟩)
        obtain ⟨pattern, permission⟩ := existing
        obtain rfl : pattern = entry.pattern := same
        obtain rfl : permission = entry.permission := rank_injective equal
        rfl
  · rintro ⟨one, ⟨listed, strictest⟩, rfl⟩
    split
    case isTrue taken =>
      refine ⟨List.mem_append_right _ List.mem_cons_self, fun other member same => ?_⟩
      obtain earlier | rfl := List.mem_append.mp member |>.imp_right List.mem_singleton.mp
      · exact (strictest other earlier (same.trans taken.1.symm)).trans taken.2.le
      · exact le_rfl
    case isFalse kept =>
      refine ⟨List.mem_append_left _ listed, fun other member alike => ?_⟩
      obtain earlier | rfl := List.mem_append.mp member |>.imp_right List.mem_singleton.mp
      · exact strictest other earlier alike
      · exact Nat.not_lt.mp fun lower => kept ⟨alike.symm, lower⟩

/-- The effective permission of a pattern is the strictest one that it is listed with. -/
theorem mem_effectiveEntries (entries : List NetworkDomainPermissionEntry)
    (entry : NetworkDomainPermissionEntry) :
    entry ∈ effectiveEntries entries ↔ Strictest entries entry := by
  induction entries using List.reverseRecOn generalizing entry with
  | nil => simp [effectiveEntries, Strictest]
  | append_singleton entries last ih =>
      rw [effectiveEntries_concat, recordEntry]
      split
      case isTrue known =>
        obtain ⟨existing, effective, same⟩ := List.any_eq_true.mp known
        rw [strictest_concat_of_known ((ih existing).mp effective) (eq_of_beq same),
          List.mem_map]
        exact exists_congr fun one => and_congr_left fun _ => ih one
      case isFalse unknown =>
        have fresh : ∀ other ∈ entries, other.pattern ≠ last.pattern := by
          intro other listed same
          obtain ⟨existing, effective, same⟩ :=
            (exists_pattern_effectiveEntries entries last.pattern).mpr ⟨other, listed, same⟩
          exact unknown (List.any_eq_true.mpr ⟨existing, effective, beq_iff_eq.mpr same⟩)
        rw [strictest_concat_of_fresh fresh, List.mem_append, List.mem_singleton, ih]

end Effective

/-! ## Host names -/

/-- A character of a host name. -/
def isHostnameChar (c : Char) : Bool := c.isAlphanum || c == '-' || c == '_' || c == '.'

/-- A text of such characters only. -/
def Hostname (text : Text) : Prop := ∀ c ∈ text, isHostnameChar c = true

instance (text : Text) : Decidable (Hostname text) := List.decidableBAll _ text

section Hostname

variable {c : Char} {text host entry : Text}

theorem toNat_of_isAlphanum (alphanumeric : c.isAlphanum = true) :
    (65 ≤ c.toNat ∧ c.toNat ≤ 90) ∨ (97 ≤ c.toNat ∧ c.toNat ≤ 122) ∨
      (48 ≤ c.toNat ∧ c.toNat ≤ 57) := by
  rw [Char.isAlphanum, Bool.or_eq_true, Text.isAlpha_iff_toNat, Char.isDigit_iff_toNat,
    or_assoc] at alphanumeric
  exact alphanumeric

theorem isWhitespace_of_isHostnameChar (plain : isHostnameChar c = true) :
    Text.isWhitespace c = false := by
  simp only [isHostnameChar, Bool.or_eq_true, beq_iff_eq] at plain
  obtain ((alphanumeric | rfl) | rfl) | rfl := plain
  · have range := toNat_of_isAlphanum alphanumeric
    simp only [Text.isWhitespace, Bool.or_eq_false_iff, Bool.and_eq_false_iff,
      decide_eq_false_iff_not, beq_eq_false_iff_ne]
    omega
  all_goals rfl

theorem isHostnameChar_toLower (plain : isHostnameChar c = true) :
    isHostnameChar c.toLower = true := by
  have lowered := Text.toNat_toLower c
  split at lowered
  case isTrue upper =>
    have letter : c.toLower.isAlpha = true := Text.isAlpha_iff_toNat.mpr (by omega)
    simp [isHostnameChar, Char.isAlphanum, letter]
  case isFalse => rwa [Char.toNat_inj.mp lowered]

theorem Hostname.notMem (plain : Hostname text) (special : isHostnameChar c = false) :
    c ∉ text := by
  intro member
  cases (plain c member).symm.trans special

/-- Host names have no special characters of globs. -/
theorem Hostname.literal (plain : Hostname text) : Literal text := by
  intro c member special
  have allowed := plain c member
  simp only [List.mem_cons, List.not_mem_nil, or_false] at special
  obtain rfl | rfl | rfl | rfl | rfl | rfl | rfl | rfl := special <;> cases allowed

theorem Hostname.trim (plain : Hostname text) : text.trim = text :=
  Text.trim_eq_self
    (fun c first => isWhitespace_of_isHostnameChar (plain c (List.mem_of_head? first)))
    (fun c last => isWhitespace_of_isHostnameChar (plain c (List.mem_of_getLast? last)))

theorem Hostname.normalizeDnsHost (plain : Hostname text) : Hostname (normalizeDnsHost text) := by
  intro c member
  have lowered := (List.rdropWhile_prefix _ _).subset member
  obtain ⟨before, listed, rfl⟩ := List.mem_map.mp lowered
  exact isHostnameChar_toLower (plain before listed)

/-- Only the case and trailing dots of a host name are normalized. -/
theorem Hostname.normalizeHost (plain : Hostname host) :
    normalizeHost host = NetworkProxy.normalizeDnsHost host := by
  have noPort : host.count ':' = 0 := List.count_eq_zero.mpr (plain.notMem rfl)
  have whole : stripPort host = host := by
    rw [stripPort, noPort]
    rfl
  rw [NetworkProxy.normalizeHost, plain.trim]
  split
  case h_1 rest =>
    exact absurd List.mem_cons_self (plain.notMem (c := '[') rfl)
  case h_2 => rw [whole]

theorem normalizeDnsHost_normalizeDnsHost (host : Text) :
    normalizeDnsHost (normalizeDnsHost host) = normalizeDnsHost host := by
  have lower : (normalizeDnsHost host).toAsciiLowercase = normalizeDnsHost host := by
    refine (List.map_congr_left fun c member => ?_).trans (List.map_id _)
    obtain ⟨before, -, rfl⟩ := List.mem_map.mp ((List.rdropWhile_prefix _ _).subset member)
    exact Text.toLower_toLower before
  rw [normalizeDnsHost, lower, normalizeDnsHost]
  exact List.rdropWhile_idempotent _ _

/-- Normalizing a host name twice is normalizing it once. -/
theorem Hostname.normalizeHost_normalizeHost (plain : Hostname host) :
    NetworkProxy.normalizeHost (NetworkProxy.normalizeHost host) =
      NetworkProxy.normalizeHost host := by
  rw [plain.normalizeHost, plain.normalizeDnsHost.normalizeHost, normalizeDnsHost_normalizeDnsHost]

/-- What starts with a star keeps it. -/
theorem star_mem_normalizeHost {rest : Text} (starred : entry.trim = '*' :: rest) :
    '*' ∈ NetworkProxy.normalizeHost entry := by
  have kept : '*' ∈ stripPort ('*' :: rest) := by
    rw [stripPort]
    split
    case isTrue =>
      rw [List.takeWhile_cons_of_pos (by decide)]
      exact List.mem_cons_self
    case isFalse => exact List.mem_cons_self
  have lowered : '*' ∈ (stripPort ('*' :: rest)).toAsciiLowercase := List.mem_map_of_mem kept
  rw [NetworkProxy.normalizeHost, starred]
  change '*' ∈ List.rdropWhile (· == '.') (stripPort ('*' :: rest)).toAsciiLowercase
  have parts : (stripPort ('*' :: rest)).toAsciiLowercase.rdropWhile (· == '.') ++
      (stripPort ('*' :: rest)).toAsciiLowercase.rtakeWhile (· == '.') =
      (stripPort ('*' :: rest)).toAsciiLowercase := List.rdropWhile_append_rtakeWhile
  rw [← parts] at lowered
  obtain stays | dropped := List.mem_append.mp lowered
  · exact stays
  · exact absurd (List.mem_rtakeWhile_imp dropped) (by decide)

theorem stripPrefix_eq_none_of_unstarred (unstarred : ∀ rest, text ≠ '*' :: rest) (rest : Text) :
    text.stripPrefix ('*' :: rest) = none := by
  refine Option.eq_none_iff_forall_ne_some.mpr fun domain stripped => ?_
  exact unstarred (rest ++ domain) (Text.stripPrefix_eq_some_iff.mp stripped)

/-- An entry for a host name is compiled to the glob of that name. -/
theorem globsOf_of_normalizeHost_eq (plain : Hostname host) (nonempty : host ≠ [])
    (same : NetworkProxy.normalizeHost entry = host) : globsOf entry = [host] := by
  have unstarred (rest : Text) : entry.trim ≠ '*' :: rest := by
    intro starred
    exact plain.notMem rfl (same ▸ star_mem_normalizeHost starred)
  have again : entry.trim.trim = entry.trim :=
    (Text.trim_trimEnd _).trans (Text.trim_trimStart _)
  have pattern : normalizePattern entry = host := by
    rw [normalizePattern, if_neg (unstarred []), anyMarker, subMarker,
      stripPrefix_eq_none_of_unstarred unstarred, stripPrefix_eq_none_of_unstarred unstarred]
    dsimp only
    rw [← same, NetworkProxy.normalizeHost, again]
    rfl
  have unstarred (rest : Text) : host ≠ '*' :: rest := by
    rintro rfl
    exact plain.notMem rfl List.mem_cons_self
  have parsed : DomainPattern.parse host = .exact host := by
    rw [DomainPattern.parse, plain.trim, if_neg nonempty, anyMarker, subMarker,
      stripPrefix_eq_none_of_unstarred unstarred, stripPrefix_eq_none_of_unstarred unstarred]
  rw [globsOf, pattern, expandDomainPattern, parsed]

end Hostname

/-! ## The list of a host -/

/-- The other list. -/
def DomainListKind.opposite : DomainListKind → DomainListKind
  | .allow => .deny
  | .deny => .allow

/-- A host is on a list by an entry that is normalized to it. -/
def OnList (config : NetworkProxyConfig) (kind : DomainListKind) (host : Text) : Prop :=
  ∃ entry ∈ kind.entries config, normalizeHost entry = host

/-- A host is on one list and not on the other one. -/
structure Listed (config : NetworkProxyConfig) (kind : DomainListKind) (host : Text) : Prop where
  on : OnList config kind host
  off : ¬OnList config kind.opposite host

/-- The entries of a host. -/
def hostEntries (config : NetworkProxyConfig) (host : Text) : List NetworkDomainPermissionEntry :=
  (config.network.domains.getD []).filter fun entry => normalizeHost entry.pattern = host

/-- A configuration with another permission of a host. -/
def NetworkProxyConfig.withDomain (config : NetworkProxyConfig) (host : Text)
    (kind : DomainListKind) : NetworkProxyConfig :=
  ⟨config.network.upsertDomainPermission host kind.permission normalizeHost⟩

section Lists

variable {config after : NetworkProxyConfig} {kind target : DomainListKind} {host other : Text}

theorem oppositeEntries_eq (kind : DomainListKind) (config : NetworkProxyConfig) :
    kind.oppositeEntries config = kind.opposite.entries config := by
  cases kind <;> rfl

theorem permission_injective : Function.Injective DomainListKind.permission := by
  intro left right same
  cases left <;> cases right <;> first | rfl | cases same

/-- Without entries there is an empty list or none. -/
theorem getD_filter_isEmpty (patterns : Option (List Text)) :
    (patterns.filter (!·.isEmpty)).getD [] = patterns.getD [] := by
  cases patterns with
  | none => rfl
  | some patterns => cases patterns <;> rfl

theorem mem_entries {entry : Text} : entry ∈ kind.entries config ↔
    Strictest (config.network.domains.getD []) ⟨entry, kind.permission⟩ := by
  have listed : kind.entries config =
      (config.network.domainEntries kind.permission).getD [] := by
    cases kind <;> rfl
  rw [listed, NetworkProxySettings.domainEntries, ← mem_effectiveEntries, getD_filter_isEmpty]
  cases config.network.domains with
  | none => simp [effectiveEntries]
  | some entries =>
      simp only [Option.map_some, Option.getD_some, List.mem_map, List.mem_filter,
        decide_eq_true_eq]
      constructor
      · rintro ⟨⟨pattern, permission⟩, ⟨effective, same⟩, rfl⟩
        exact same ▸ effective
      · exact fun effective => ⟨_, ⟨effective, rfl⟩, rfl⟩

/-- Only the entries of a host decide which lists it is on. -/
theorem onList_iff : OnList config kind host ↔
    ∃ pattern, Strictest (hostEntries config host) ⟨pattern, kind.permission⟩ := by
  constructor
  · rintro ⟨entry, listed, same⟩
    obtain ⟨member, strictest⟩ := mem_entries.mp listed
    refine ⟨entry, List.mem_filter.mpr ⟨member, decide_eq_true same⟩, fun other found => ?_⟩
    exact strictest other (List.mem_filter.mp found).1
  · rintro ⟨pattern, found, strictest⟩
    obtain ⟨member, same⟩ := List.mem_filter.mp found
    have same : normalizeHost pattern = host := of_decide_eq_true same
    refine ⟨pattern, mem_entries.mpr ⟨member, fun other listed alike => ?_⟩, same⟩
    refine strictest other (List.mem_filter.mpr ⟨listed, decide_eq_true ?_⟩) alike
    rw [alike]
    exact same

theorem listed_congr (same : hostEntries after host = hostEntries config host) :
    Listed after kind host ↔ Listed config kind host := by
  have onSame (kind : DomainListKind) : OnList after kind host ↔ OnList config kind host := by
    rw [onList_iff, onList_iff, same]
  constructor
  · rintro ⟨on, off⟩
    exact ⟨(onSame kind).mp on, fun here => off ((onSame kind.opposite).mpr here)⟩
  · rintro ⟨on, off⟩
    exact ⟨(onSame kind).mpr on, fun here => off ((onSame kind.opposite).mp here)⟩

theorem domains_withDomain (config : NetworkProxyConfig) (host : Text) (kind : DomainListKind) :
    (config.withDomain host kind).network.domains.getD [] =
      ((config.network.domains.getD []).filter fun entry =>
        normalizeHost entry.pattern ≠ normalizeHost host) ++ [⟨host, kind.permission⟩] := by
  rw [NetworkProxyConfig.withDomain, NetworkProxySettings.upsertDomainPermission]
  simp

/-- The host has one entry afterwards. -/
theorem hostEntries_withDomain_self (normal : normalizeHost host = host) :
    hostEntries (config.withDomain host kind) host = [⟨host, kind.permission⟩] := by
  rw [hostEntries, domains_withDomain, List.filter_append, List.filter_filter]
  simp [normal]

/-- The entries of other hosts stay. -/
theorem hostEntries_withDomain_of_ne (apart : other ≠ normalizeHost host) :
    hostEntries (config.withDomain host kind) other = hostEntries config other := by
  rw [hostEntries, domains_withDomain, List.filter_append, List.filter_filter]
  have last : ([⟨host, kind.permission⟩] : List NetworkDomainPermissionEntry).filter
      (fun entry => normalizeHost entry.pattern = other) = [] := by
    simp [apart.symm]
  rw [last, List.append_nil, hostEntries]
  refine List.filter_congr fun entry _ => ?_
  simp only [Bool.and_eq_left_iff_imp, decide_eq_true_eq]
  rintro rfl
  exact apart

theorem listed_withDomain_self (normal : normalizeHost host = host) :
    Listed (config.withDomain host kind) kind host := by
  constructor
  · refine onList_iff.mpr ⟨host, ?_, ?_⟩
    · rw [hostEntries_withDomain_self normal]
      exact List.mem_cons_self
    · rw [hostEntries_withDomain_self normal]
      intro other listed _
      rw [List.mem_singleton.mp listed]
  · rw [onList_iff, hostEntries_withDomain_self normal]
    rintro ⟨pattern, listed, -⟩
    have same := congrArg NetworkDomainPermissionEntry.permission (List.mem_singleton.mp listed)
    have opposed := permission_injective same
    cases kind <;> cases opposed

/-- The lists of other hosts stay. -/
theorem listed_withDomain_of_ne (apart : other ≠ normalizeHost host) :
    Listed (config.withDomain host target) kind other ↔ Listed config kind other :=
  listed_congr (hostEntries_withDomain_of_ne apart)

end Lists

end CodexPilot.NetworkProxy
