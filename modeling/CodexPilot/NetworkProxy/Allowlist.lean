import CodexPilot.Library.Wildcards
import CodexPilot.NetworkProxy.State
import Mathlib.Algebra.Order.BigOperators.Group.List
import Mathlib.Algebra.Order.Group.Nat

/-!
# The managed allowlist as an upper bound

A configuration is checked against the managed allowlist by patterns, but hosts are matched by
globs. The globs of a configuration stay within the managed ones where both readings of an entry
agree.
-/

namespace CodexPilot.NetworkProxy

open RustStd Wildcards

/-! ## Globs -/

/-- A text that stands for itself in a glob. -/
def Literal (text : Text) : Prop :=
  ∀ c ∈ text, c ∉ ['?', '*', '[', ']', '\x7b', '\x7d', '\\', '/']

instance (text : Text) : Decidable (Literal text) := List.decidableBAll _ text

/-- What the crates document about globs without a separator and about URL hosts. -/
structure Documented (crates : Crates) : Prop where
  literal_builds : ∀ text, Literal text → crates.globBuilds text = true
  literal_matches : ∀ text host, Literal text →
    (crates.globMatches text host = true ↔ text.toAsciiLowercase = host.toAsciiLowercase)
  nonempty_builds : crates.globBuilds ['?', '*'] = true
  nonempty_matches : ∀ host, crates.globMatches ['?', '*'] host = true ↔ host ≠ []
  append_builds : ∀ before after, crates.globBuilds before = true →
    crates.globBuilds after = true → crates.globBuilds (before ++ after) = true
  append_matches : ∀ before after host, crates.globBuilds before = true →
    crates.globBuilds after = true → '/' ∉ before ++ after →
      (crates.globMatches (before ++ after) host = true ↔
        ∃ front back, host = front ++ back ∧ crates.globMatches before front = true ∧
          crates.globMatches after back = true)
  colon_rejected : ∀ host, ':' ∈ host → host.startsWith ['['] = false →
    crates.urlHostParse host = none

/-- The token of a character of a glob without classes, alternatives and escapes. -/
def globToken (c : Char) : Token Char :=
  if c = '?' then .one else if c = '*' then .many else .symbol c.toLower

/-- The crates on globs without classes, alternatives and escapes, and on hosts of lower-case
letters, digits, hyphens and dots. -/
def Crates.wildcards : Crates where
  globBuilds glob := glob.all fun c => c ∉ ['[', ']', '\x7b', '\x7d', '\\']
  globSetBuilds _ := true
  globMatches glob host := accepts (glob.map globToken) host.toAsciiLowercase
  urlHostParse := Crates.plain.urlHostParse

theorem map_globToken_of_literal {text : Text} (literal : Literal text) :
    text.map globToken = text.toAsciiLowercase.map .symbol := by
  rw [Text.toAsciiLowercase, List.map_map]
  refine List.map_congr_left fun c member => ?_
  have plain := literal c member
  simp only [List.mem_cons, not_or] at plain
  simp [globToken, plain.1, plain.2.1]

theorem documented_wildcards : Documented Crates.wildcards where
  literal_builds text literal := by
    simp only [Crates.wildcards, List.all_eq_true, decide_eq_true_eq]
    intro c member special
    refine literal c member ?_
    simp only [List.mem_cons] at special ⊢
    tauto
  literal_matches text host literal := by
    simp only [Crates.wildcards, map_globToken_of_literal literal, accepts_symbols]
  nonempty_builds := by decide
  nonempty_matches host := by
    have tokens : (['?', '*'] : Text).map globToken = [.one, .many] := by decide
    simp only [Crates.wildcards, tokens, accepts_one_many]
    simp [Text.toAsciiLowercase]
  append_builds before after := by
    intro builds builds'
    simp only [Crates.wildcards, List.all_append, Bool.and_eq_true]
    exact ⟨builds, builds'⟩
  append_matches before after host _ _ _ := by
    simp only [Crates.wildcards, List.map_append, accepts_append]
    constructor
    · rintro ⟨front, back, split, accepted, accepted'⟩
      obtain ⟨first, second, rfl, rfl, rfl⟩ := List.map_eq_append_iff.mp split
      exact ⟨first, second, rfl, accepted, accepted'⟩
    · rintro ⟨front, back, rfl, accepted, accepted'⟩
      exact ⟨_, _, List.map_append, accepted, accepted'⟩
  colon_rejected host colon _ := by
    simp only [Crates.wildcards, Crates.plain]
    refine if_neg fun plain => ?_
    have colonPlain := List.all_eq_true.mp plain ':' colon
    revert colonPlain
    decide

/-! ## Compiled sets -/

theorem mem_addCandidate {crates : Crates} {seen after : GlobSet} {candidate : Text}
    (added : addCandidate crates seen candidate = .ok after) (glob : Text) :
    glob ∈ after ↔ glob ∈ seen ∨ glob ∈ [candidate] := by
  unfold addCandidate at added
  split_ifs at added with known builds
  · cases added
    refine ⟨.inl, fun listed => listed.elim id fun isCandidate => ?_⟩
    rw [List.mem_singleton.mp isCandidate]
    exact List.contains_iff_mem.mp known
  · cases added
    simp

/-- A compiled set has the globs of the patterns. -/
theorem mem_compileGlobsetWithPolicy {crates : Crates} {patterns : List Text}
    {globalWildcard : GlobalWildcard} {globs : GlobSet}
    (compiled : compileGlobsetWithPolicy crates patterns globalWildcard = .ok globs) (glob : Text) :
    glob ∈ globs ↔ ∃ pattern ∈ patterns, glob ∈ globsOf pattern := by
  obtain ⟨collected, folded, checked⟩ := bind_eq_ok_iff.mp compiled
  split_ifs at checked
  cases checked
  have each : ∀ seen pattern after, addPattern crates globalWildcard seen pattern = .ok after →
      ∀ found, found ∈ after ↔ found ∈ seen ∨ found ∈ globsOf pattern := by
    intro seen pattern after added found
    rw [addPattern] at added
    split_ifs at added
    have one : ∀ seen candidate after, addCandidate crates seen candidate = .ok after →
        ∀ found, found ∈ after ↔ found ∈ seen ∨ found ∈ [candidate] := fun _ _ _ => mem_addCandidate
    simpa using mem_foldlM one added found
  simpa using mem_foldlM each folded glob

theorem mem_compileAllowlistGlobset {crates : Crates} {patterns : List Text} {globs : GlobSet}
    (compiled : compileAllowlistGlobset crates patterns = .ok globs) (glob : Text) :
    glob ∈ globs ↔ ∃ pattern ∈ patterns, glob ∈ globsOf pattern :=
  mem_compileGlobsetWithPolicy compiled glob

/-! ## Globs below others -/

/-- A glob is one of a set, or ends like a wildcard of the set with something before it. -/
def Below (crates : Crates) (globs : GlobSet) (glob : Text) : Prop :=
  glob ∈ globs ∨ ∃ before domain, subdomainGlob domain ∈ globs ∧ glob = before ++ '.' :: domain ∧
    crates.globBuilds before = true ∧ crates.globBuilds domain = true ∧
    crates.globMatches before [] = false ∧ '/' ∉ glob

section Globs

variable {crates : Crates} {globs : GlobSet} {glob domain host : Text}

theorem literal_dot : Literal ['.'] := by decide

theorem subdomainGlob_eq (domain : Text) : subdomainGlob domain = ['?', '*'] ++ (['.'] ++ domain) :=
  rfl

theorem Documented.dot_builds (documented : Documented crates)
    (builds : crates.globBuilds domain = true) : crates.globBuilds (['.'] ++ domain) = true :=
  documented.append_builds _ _ (documented.literal_builds _ literal_dot) builds

/-- A wildcard matches what its domain matches, after a dot and something before it. -/
theorem Documented.subdomainGlob_matches (documented : Documented crates)
    (builds : crates.globBuilds domain = true) (noSlash : '/' ∉ domain) :
    crates.globMatches (subdomainGlob domain) host = true ↔
      ∃ front back, host = front ++ back ∧ front ≠ [] ∧
        crates.globMatches (['.'] ++ domain) back = true := by
  have noSlash' : '/' ∉ ['?', '*'] ++ (['.'] ++ domain) := by simpa using noSlash
  rw [subdomainGlob_eq, documented.append_matches _ _ _ documented.nonempty_builds
    (documented.dot_builds builds) noSlash']
  simp only [documented.nonempty_matches]

/-- What a glob matches, every set matches that it is below. -/
theorem Below.isMatch (documented : Documented crates) (below : Below crates globs glob)
    (matched : crates.globMatches glob host = true) : GlobSet.isMatch crates globs host = true := by
  refine List.any_eq_true.mpr ?_
  obtain listed | ⟨before, domain, listed, rfl, builds, builds', unempty, noSlash⟩ := below
  · exact ⟨glob, listed, matched⟩
  · have noSlash' : '/' ∉ domain := fun slash => noSlash (by simp [slash])
    refine ⟨subdomainGlob domain, listed, ?_⟩
    obtain ⟨front, back, rfl, first, second⟩ := (documented.append_matches before (['.'] ++ domain)
      host builds (documented.dot_builds builds') noSlash).mp matched
    refine (documented.subdomainGlob_matches builds' noSlash').mpr ⟨front, back, rfl, ?_, second⟩
    rintro rfl
    rw [unempty] at first
    cases first

theorem Documented.literal_unempty (documented : Documented crates) {text : Text}
    (literal : Literal text) (nonempty : text ≠ []) : crates.globMatches text [] = false := by
  refine Bool.eq_false_iff.mpr fun matched => nonempty ?_
  simpa [Text.toAsciiLowercase] using (documented.literal_matches text [] literal).mp matched

theorem Literal.noSlash {text : Text} (literal : Literal text) : '/' ∉ text :=
  fun slash => literal '/' slash (by decide)

theorem Literal.append_iff {left right : Text} :
    Literal (left ++ right) ↔ Literal left ∧ Literal right :=
  List.forall_mem_append

/-- A literal host is below the wildcards of the domains that it is in. -/
theorem below_of_literal (documented : Documented crates) {before : Text}
    (listed : subdomainGlob domain ∈ globs) (literal : Literal (before ++ '.' :: domain))
    (nonempty : before ≠ []) : Below crates globs (before ++ '.' :: domain) := by
  obtain ⟨left, right⟩ := Literal.append_iff.mp literal
  have right' : Literal domain := fun c member => right c (List.mem_cons_of_mem _ member)
  exact .inr ⟨before, domain, listed, rfl, documented.literal_builds _ left,
    documented.literal_builds _ right', documented.literal_unempty left nonempty, literal.noSlash⟩

/-- A wildcard is below the wildcards of the domains that its own domain is in. -/
theorem below_of_wildcard (documented : Documented crates) {before : Text}
    (listed : subdomainGlob domain ∈ globs) (literal : Literal (before ++ '.' :: domain)) :
    Below crates globs (subdomainGlob (before ++ '.' :: domain)) := by
  obtain ⟨left, right⟩ := Literal.append_iff.mp literal
  have right' : Literal domain := fun c member => right c (List.mem_cons_of_mem _ member)
  have builds := documented.literal_builds before left
  have noSlash : '/' ∉ subdomainGlob (before ++ '.' :: domain) := by
    rw [subdomainGlob_eq]
    simpa using literal.noSlash
  have unempty : crates.globMatches (subdomainGlob before) [] = false := by
    refine Bool.eq_false_iff.mpr fun matched => ?_
    obtain ⟨front, back, split, nonempty, _⟩ :=
      (documented.subdomainGlob_matches builds left.noSlash).mp matched
    exact nonempty (List.append_eq_nil_iff.mp split.symm).1
  have builds' : crates.globBuilds (subdomainGlob before) = true := by
    rw [subdomainGlob_eq]
    exact documented.append_builds _ _ documented.nonempty_builds (documented.dot_builds builds)
  exact .inr ⟨subdomainGlob before, domain, listed, by simp [subdomainGlob], builds',
    documented.literal_builds _ right', unempty, noSlash⟩

end Globs

/-! ## Entries -/

namespace DomainPattern

/-- The domain of a pattern. -/
def domain : DomainPattern → Text
  | .apexAndSubdomains domain | .subdomainsOnly domain | .exact domain => domain

def mapDomain (change : Text → Text) : DomainPattern → DomainPattern
  | .apexAndSubdomains domain => .apexAndSubdomains (change domain)
  | .subdomainsOnly domain => .subdomainsOnly (change domain)
  | .exact domain => .exact (change domain)

end DomainPattern

/-- The pattern that the globs of an entry are made of. -/
def globPattern (entry : Text) : DomainPattern := DomainPattern.parse (normalizePattern entry)

/-- The check of an entry sees the pattern that its globs are made of. -/
def Faithful (crates : Crates) (entry : Text) : Prop :=
  (DomainPattern.parseForConstraints crates entry).mapDomain normalizeDomain = globPattern entry

instance (crates : Crates) (entry : Text) : Decidable (Faithful crates entry) :=
  inferInstanceAs (Decidable (_ = _))

/-- A host as the proxy writes it, without special characters of globs. -/
def Plain (text : Text) : Prop := Literal text ∧ normalizeDnsHost text = text

instance (text : Text) : Decidable (Plain text) := inferInstanceAs (Decidable (_ ∧ _))

section Entries

variable {crates : Crates} {entry managed : Text} {globs : GlobSet}

theorem globsOf_eq (entry : Text) :
    globsOf entry = match globPattern entry with
      | .exact domain => [domain]
      | .subdomainsOnly domain => [subdomainGlob domain]
      | .apexAndSubdomains domain => [domain, subdomainGlob domain] := rfl

theorem exists_of_endsWith {child parent : Text} (ends : child.endsWith ('.' :: parent) = true) :
    ∃ before, child = before ++ '.' :: parent := by
  obtain ⟨before, split⟩ := List.isSuffixOf_iff_suffix.mp ends
  exact ⟨before, split.symm⟩

theorem endsWith_of_isStrictSubdomain {child parent : Text}
    (strict : isStrictSubdomain child parent = true) :
    (normalizeDomain child).endsWith ('.' :: normalizeDomain parent) = true :=
  (Bool.and_eq_true_iff.mp strict).2

theorem eq_or_endsWith_of_isSubdomainOrEqual {child parent : Text}
    (inside : isSubdomainOrEqual child parent = true) :
    normalizeDomain child = normalizeDomain parent ∨
      (normalizeDomain child).endsWith ('.' :: normalizeDomain parent) = true :=
  (Bool.or_eq_true_iff.mp inside).imp_left eq_of_beq

/-- A literal domain inside another one is below its wildcard, and so is its own wildcard. -/
theorem below_of_inside (documented : Documented crates) {child parent : Text}
    (listed : subdomainGlob parent ∈ globs) (ends : child.endsWith ('.' :: parent) = true)
    (literal : Literal child) (noDot : child.head? ≠ some '.') :
    Below crates globs child ∧ Below crates globs (subdomainGlob child) := by
  obtain ⟨before, rfl⟩ := exists_of_endsWith ends
  refine ⟨below_of_literal documented listed literal ?_,
    below_of_wildcard documented listed literal⟩
  rintro rfl
  exact noDot rfl

/-- An entry that a managed one allows is below it, where the check sees both as their globs do. -/
theorem below_of_allows (documented : Documented crates)
    (allowed : (DomainPattern.parseForConstraints crates managed).allows
      (DomainPattern.parseForConstraints crates entry) = true)
    (managedFaithful : Faithful crates managed) (faithful : Faithful crates entry)
    (literal : Literal (globPattern entry).domain)
    (noDot : (globPattern entry).domain.head? ≠ some '.')
    (listed : ∀ glob ∈ globsOf managed, glob ∈ globs) :
    ∀ glob ∈ globsOf entry, Below crates globs glob := by
  rw [globsOf_eq] at listed ⊢
  unfold Faithful at managedFaithful faithful
  rw [← faithful] at literal noDot ⊢
  rw [← managedFaithful] at listed
  generalize DomainPattern.parseForConstraints crates managed = allowing at allowed listed
  generalize DomainPattern.parseForConstraints crates entry = candidate at allowed literal noDot ⊢
  -- Either both domains are the same, or that of the entry is inside the managed one.
  cases allowing with
  | exact parent =>
      cases candidate with
      | exact child =>
          have same : normalizeDomain child = normalizeDomain parent := eq_of_beq allowed
          simp only [DomainPattern.mapDomain, same, List.forall_mem_singleton] at listed ⊢
          exact .inl listed
      | subdomainsOnly child | apexAndSubdomains child => cases allowed
  | subdomainsOnly parent =>
      simp only [DomainPattern.mapDomain, List.forall_mem_singleton] at listed
      cases candidate with
      | exact child =>
          obtain ⟨host, _⟩ := below_of_inside documented listed
            (endsWith_of_isStrictSubdomain allowed) literal noDot
          simpa [DomainPattern.mapDomain] using host
      | subdomainsOnly child =>
          simp only [DomainPattern.mapDomain, List.forall_mem_singleton]
          obtain same | ends := eq_or_endsWith_of_isSubdomainOrEqual allowed
          · rw [same]
            exact .inl listed
          · exact (below_of_inside documented listed ends literal noDot).2
      | apexAndSubdomains child =>
          obtain ⟨host, wildcard⟩ := below_of_inside documented listed
            (endsWith_of_isStrictSubdomain allowed) literal noDot
          simpa [DomainPattern.mapDomain] using ⟨host, wildcard⟩
  | apexAndSubdomains parent =>
      obtain ⟨apex, wildcard⟩ : normalizeDomain parent ∈ globs ∧
          subdomainGlob (normalizeDomain parent) ∈ globs := by
        simpa [DomainPattern.mapDomain] using listed
      have both : Below crates globs (candidate.mapDomain normalizeDomain).domain ∧
          Below crates globs (subdomainGlob (candidate.mapDomain normalizeDomain).domain) := by
        have inside : isSubdomainOrEqual candidate.domain parent = true := by
          cases candidate <;> exact allowed
        have mapped : (candidate.mapDomain normalizeDomain).domain =
            normalizeDomain candidate.domain := by
          cases candidate <;> rfl
        rw [mapped] at literal noDot ⊢
        obtain same | ends := eq_or_endsWith_of_isSubdomainOrEqual inside
        · rw [same]
          exact ⟨.inl apex, .inl wildcard⟩
        · exact below_of_inside documented wildcard ends literal noDot
      cases candidate with
      | exact child => simpa [DomainPattern.mapDomain, DomainPattern.domain] using both.1
      | subdomainsOnly child => simpa [DomainPattern.mapDomain, DomainPattern.domain] using both.2
      | apexAndSubdomains child => simpa [DomainPattern.mapDomain, DomainPattern.domain] using both

end Entries

/-! ## Hosts that tell globs apart -/

section Plain

variable {crates : Crates} {text domain host : Text}

theorem toAsciiLowercase_eq_of_normal (normal : normalizeDnsHost text = text) :
    text.toAsciiLowercase = text := by
  have shorter : normalizeDnsHost text <+: text.toAsciiLowercase := List.rdropWhile_prefix _ _
  rw [normal] at shorter
  exact (shorter.eq_of_length (by simp [Text.toAsciiLowercase])).symm

theorem toAsciiLowercase_append_eq {left right : Text}
    (lower : Text.toAsciiLowercase (left ++ right) = left ++ right) :
    left.toAsciiLowercase = left ∧ right.toAsciiLowercase = right := by
  simp only [Text.toAsciiLowercase, List.map_append] at lower ⊢
  exact List.append_inj lower (by simp)

/-- Every plain text is what some host is normalized to. -/
theorem normalizeHost_bracketed (plain : Plain text) :
    normalizeHost ('[' :: (text ++ [']'])) = text := by
  have closed : ∀ c ∈ text, (c != ']') = true := by
    intro c member
    have special := plain.1 c member
    simp only [List.mem_cons, not_or] at special
    simpa using special.2.2.2.1
  have trimmed : Text.trim ('[' :: (text ++ [']'])) = '[' :: (text ++ [']']) := by
    have opened : Text.trimStart ('[' :: (text ++ [']'])) = '[' :: (text ++ [']']) :=
      List.dropWhile_cons_of_neg (by decide)
    rw [Text.trim, opened, ← List.cons_append]
    exact List.rdropWhile_concat_neg _ _ _ (by decide)
  have inside : (text ++ [']']).takeWhile (· != ']') = text := by
    rw [List.takeWhile_append_of_pos closed]
    simp
  unfold normalizeHost
  rw [trimmed]
  simp [inside, plain.2]

theorem Documented.literal_matches_iff (documented : Documented crates) (plain : Plain text)
    (lower : host.toAsciiLowercase = host) : crates.globMatches text host = true ↔ text = host := by
  rw [documented.literal_matches text host plain.1, toAsciiLowercase_eq_of_normal plain.2, lower]

/-- A plain wildcard matches the hosts below its domain. -/
theorem Documented.subdomainGlob_matches_iff (documented : Documented crates) (plain : Plain domain)
    (lower : host.toAsciiLowercase = host) :
    crates.globMatches (subdomainGlob domain) host = true ↔
      ∃ before, before ≠ [] ∧ host = before ++ '.' :: domain := by
  have literal : Literal (['.'] ++ domain) := Literal.append_iff.mpr ⟨literal_dot, plain.1⟩
  have lowerDot : Text.toAsciiLowercase (['.'] ++ domain) = ['.'] ++ domain := by
    have lowerDomain := toAsciiLowercase_eq_of_normal plain.2
    simp only [Text.toAsciiLowercase] at lowerDomain ⊢
    rw [List.map_append, lowerDomain]
    rfl
  rw [documented.subdomainGlob_matches (documented.literal_builds _ plain.1) plain.1.noSlash]
  constructor
  · rintro ⟨front, back, rfl, nonempty, matched⟩
    have lowerBack := (toAsciiLowercase_append_eq lower).2
    rw [documented.literal_matches _ _ literal, lowerDot, lowerBack] at matched
    exact ⟨front, nonempty, by rw [← matched]; rfl⟩
  · rintro ⟨before, nonempty, rfl⟩
    refine ⟨before, ['.'] ++ domain, rfl, nonempty, ?_⟩
    exact (documented.literal_matches _ _ literal).mpr rfl

/-- A glob of an entry with a plain domain. -/
inductive PlainGlob : Text → Prop
  | host {domain : Text} (plain : Plain domain) : PlainGlob domain
  | wildcard {domain : Text} (plain : Plain domain) (nonempty : domain ≠ []) :
      PlainGlob (subdomainGlob domain)

/-- A pattern with a wildcard has a domain. -/
theorem exists_domain_of_parse (input : Text) :
    (∃ domain, DomainPattern.parse input = .exact domain) ∨
      (DomainPattern.parse input).domain ≠ [] := by
  have parsed : ∀ (domain : Text) (build : Text → DomainPattern),
      (∀ text, (build text).domain = text) →
      (∃ domain', DomainPattern.parseDomain domain build = .exact domain') ∨
        (DomainPattern.parseDomain domain build).domain ≠ [] := by
    intro domain build keeps
    unfold DomainPattern.parseDomain
    dsimp only
    split_ifs with blank
    · exact .inl ⟨[], rfl⟩
    · rw [keeps]
      exact .inr blank
  unfold DomainPattern.parse
  dsimp only
  split_ifs
  · exact .inl ⟨[], rfl⟩
  · split
    · exact parsed _ _ fun _ => rfl
    · split
      · exact parsed _ _ fun _ => rfl
      · exact .inl ⟨_, rfl⟩

theorem plainGlob_of_mem {entry glob : Text} (plain : Plain (globPattern entry).domain)
    (member : glob ∈ globsOf entry) : PlainGlob glob := by
  rw [globsOf_eq] at member
  have shape := exists_domain_of_parse (normalizePattern entry)
  rw [← globPattern] at shape
  cases pattern : globPattern entry with
  | exact domain =>
      rw [pattern] at member plain
      rw [List.mem_singleton.mp member]
      exact .host plain
  | subdomainsOnly domain =>
      rw [pattern] at member plain shape
      rw [List.mem_singleton.mp member]
      exact .wildcard plain (shape.resolve_left nofun)
  | apexAndSubdomains domain =>
      rw [pattern] at member plain shape
      obtain rfl | rfl : glob = domain ∨ glob = subdomainGlob domain := by simpa using member
      · exact .host plain
      · exact .wildcard plain (shape.resolve_left nofun)

/-- A host with a long first label in a plain domain. -/
theorem plain_longer (plain : Plain domain) (nonempty : domain ≠ []) (length : ℕ) :
    Plain (List.replicate length 'a' ++ '.' :: domain) := by
  have lower := toAsciiLowercase_eq_of_normal plain.2
  constructor
  · refine Literal.append_iff.mpr ⟨fun c member => ?_, ?_⟩
    · rw [List.eq_of_mem_replicate member]
      decide
    · exact Literal.append_iff.mpr ⟨literal_dot, plain.1⟩
  · have lowered : Text.toAsciiLowercase (List.replicate length 'a' ++ '.' :: domain) =
        List.replicate length 'a' ++ '.' :: domain := by
      simp only [Text.toAsciiLowercase] at lower ⊢
      rw [List.map_append, List.map_cons, List.map_replicate, lower]
      rfl
    have undotted : domain.rdropWhile (· == '.') = domain := by
      have normal := plain.2
      unfold normalizeDnsHost at normal
      rwa [lower] at normal
    unfold normalizeDnsHost
    rw [lowered]
    refine List.rdropWhile_eq_self_iff.mpr fun _ => ?_
    have last := List.rdropWhile_eq_self_iff.mp undotted nonempty
    simpa [List.getLast_append, List.getLast_cons nonempty] using last

/-- A plain host that a set of plain globs matches is below it. -/
theorem below_of_isMatch (documented : Documented crates) {globs : GlobSet}
    (plainGlobs : ∀ glob ∈ globs, PlainGlob glob) (plain : Plain host)
    (matched : GlobSet.isMatch crates globs host = true) : Below crates globs host := by
  have lower := toAsciiLowercase_eq_of_normal plain.2
  obtain ⟨glob, listed, matched⟩ := List.any_eq_true.mp matched
  cases plainGlobs glob listed with
  | host plain' =>
      rw [documented.literal_matches_iff plain' lower] at matched
      exact .inl (matched ▸ listed)
  | wildcard plain' _ =>
      obtain ⟨before, nonempty, rfl⟩ :=
        (documented.subdomainGlob_matches_iff plain' lower).mp matched
      exact below_of_literal documented listed plain.1 nonempty

/-- A plain wildcard whose hosts a set of plain globs matches is below it. -/
theorem below_of_isMatch_longer (documented : Documented crates) {globs : GlobSet}
    (plainGlobs : ∀ glob ∈ globs, PlainGlob glob) (plain : Plain domain) (nonempty : domain ≠ [])
    (matched : ∀ length, 0 < length →
      GlobSet.isMatch crates globs (List.replicate length 'a' ++ '.' :: domain) = true) :
    Below crates globs (subdomainGlob domain) := by
  -- A label that is longer than every glob is matched by a wildcard only.
  set length := (globs.map List.length).sum + 1 with long
  obtain ⟨glob, listed, accepted⟩ := List.any_eq_true.mp (matched length (Nat.succ_pos _))
  have lower := toAsciiLowercase_eq_of_normal (plain_longer plain nonempty length).2
  cases plainGlobs glob listed with
  | host plain' =>
      have same := (documented.literal_matches_iff plain' lower).mp accepted
      have short : glob.length ≤ (globs.map List.length).sum :=
        List.le_sum_of_mem (List.mem_map_of_mem listed)
      rw [same, List.length_append, List.length_replicate] at short
      omega
  | @wildcard parent plain' _ =>
      obtain ⟨before, _, split⟩ := (documented.subdomainGlob_matches_iff plain' lower).mp accepted
      have second : '.' :: parent <:+ List.replicate length 'a' ++ '.' :: domain :=
        ⟨before, split.symm⟩
      obtain ⟨rest, inside⟩ | ⟨rest, inside⟩ :=
        List.suffix_or_suffix_of_suffix (List.suffix_append _ ('.' :: domain)) second
      · cases rest with
        | nil =>
            cases inside
            exact .inl listed
        | cons dot rest =>
            rw [← inside, ← List.append_assoc, List.append_left_inj] at split
            cases (List.cons.inj inside).1
            have label : '.' ∈ List.replicate length 'a' := by simp [split]
            cases List.eq_of_mem_replicate label
      · cases rest with
        | nil =>
            cases inside
            exact .inl listed
        | cons dot rest =>
            cases inside
            exact below_of_wildcard documented listed plain.1

end Plain

/-! ## Allowlists -/

/-- Every glob of an entry is a managed one or below a managed wildcard. -/
def EntriesBelow (crates : Crates) (managed candidates : List Text) : Prop :=
  ∀ entry ∈ candidates, ∀ glob ∈ globsOf entry, Below crates (managed.flatMap globsOf) glob

/-- Every host that one set matches, the other one matches. -/
def BoundedBy (crates : Crates) (managedGlobs globs : GlobSet) : Prop :=
  ∀ host, GlobSet.isMatch crates globs (normalizeHost host) = true →
    GlobSet.isMatch crates managedGlobs (normalizeHost host) = true

section Allowlist

variable {crates : Crates} {config : NetworkProxyConfig} {constraints : NetworkProxyConstraints}
  {managed candidates : List Text} {managedGlobs globs : GlobSet}

theorem isMatch_iff_of_compile
    (compiled : compileAllowlistGlobset crates managed = .ok managedGlobs)
    (host : Text) : GlobSet.isMatch crates managedGlobs host = true ↔
      GlobSet.isMatch crates (managed.flatMap globsOf) host = true := by
  simp only [GlobSet.isMatch, List.any_eq_true, mem_compileAllowlistGlobset compiled,
    List.mem_flatMap]

theorem boundedBy_of_entriesBelow (documented : Documented crates)
    (managedCompiled : compileAllowlistGlobset crates managed = .ok managedGlobs)
    (compiled : compileAllowlistGlobset crates candidates = .ok globs)
    (below : EntriesBelow crates managed candidates) : BoundedBy crates managedGlobs globs := by
  intro host matched
  obtain ⟨glob, listed, accepted⟩ := List.any_eq_true.mp matched
  obtain ⟨entry, member, expanded⟩ := (mem_compileAllowlistGlobset compiled glob).mp listed
  rw [isMatch_iff_of_compile managedCompiled]
  exact (below entry member glob expanded).isMatch documented accepted

/-- For plain entries nothing less is enough. -/
theorem entriesBelow_of_boundedBy (documented : Documented crates)
    (managedCompiled : compileAllowlistGlobset crates managed = .ok managedGlobs)
    (compiled : compileAllowlistGlobset crates candidates = .ok globs)
    (plain : ∀ entry ∈ managed ++ candidates, Plain (globPattern entry).domain)
    (bounded : BoundedBy crates managedGlobs globs) : EntriesBelow crates managed candidates := by
  intro entry member glob expanded
  have plainGlobs : ∀ glob ∈ managed.flatMap globsOf, PlainGlob glob := by
    intro glob listed
    obtain ⟨allowed, allows, expanded⟩ := List.mem_flatMap.mp listed
    exact plainGlob_of_mem (plain allowed (List.mem_append_left _ allows)) expanded
  have reached : ∀ host, Plain host → crates.globMatches glob host = true →
      GlobSet.isMatch crates (managed.flatMap globsOf) host = true := by
    intro host plainHost accepted
    have listed := (mem_compileAllowlistGlobset compiled glob).mpr ⟨entry, member, expanded⟩
    have matched := bounded ('[' :: (host ++ [']']))
    rw [normalizeHost_bracketed plainHost, isMatch_iff_of_compile managedCompiled] at matched
    exact matched (List.any_eq_true.mpr ⟨glob, listed, accepted⟩)
  cases plainGlob_of_mem (plain entry (List.mem_append_right _ member)) expanded with
  | host plainHost =>
      refine below_of_isMatch documented plainGlobs plainHost (reached glob plainHost ?_)
      exact (documented.literal_matches glob glob plainHost.1).mpr rfl
  | @wildcard domain plainDomain nonempty =>
      refine below_of_isMatch_longer documented plainGlobs plainDomain nonempty ?_
      intro length positive
      have longer := plain_longer plainDomain nonempty length
      refine reached _ longer ?_
      rw [documented.subdomainGlob_matches_iff plainDomain (toAsciiLowercase_eq_of_normal longer.2)]
      exact ⟨List.replicate length 'a', by simpa using positive.ne', rfl⟩

theorem allows_of_accepted (managedSet : constraints.allowedDomains = some managed)
    (unexpanded : constraints.allowlistExpansionEnabled = none)
    (accepted : validatePolicyAgainstConstraints crates config constraints = .ok ()) :
    ∀ entry ∈ configAllowedDomains config, ∃ allowed ∈ managed,
      (DomainPattern.parseForConstraints crates allowed).allows
        (DomainPattern.parseForConstraints crates entry) = true := by
  obtain ⟨_, _, _, _, _, _, _, checked, _, _⟩ := validate_eq_ok_iff.mp accepted
  simp only [checkAllowedDomains, managedSet, unexpanded, andThen_eq_ok_iff,
    invalidUnless] at checked
  have covered : (uncovered crates managed (configAllowedDomains config)).isEmpty = true := by
    by_contra some
    simp [some] at checked
  intro entry member
  have none := List.filter_eq_nil_iff.mp (List.isEmpty_iff.mp covered) entry member
  simpa using none

/-- Entries that the check sees as their globs do are below the managed ones. -/
theorem entriesBelow_of_faithful (documented : Documented crates)
    (managedSet : constraints.allowedDomains = some managed)
    (unexpanded : constraints.allowlistExpansionEnabled = none)
    (accepted : validatePolicyAgainstConstraints crates config constraints = .ok ())
    (faithful : ∀ entry ∈ managed ++ configAllowedDomains config, Faithful crates entry)
    (literal : ∀ entry ∈ configAllowedDomains config, Literal (globPattern entry).domain ∧
      (globPattern entry).domain.head? ≠ some '.') :
    EntriesBelow crates managed (configAllowedDomains config) := by
  intro entry member
  obtain ⟨allowed, allows, covers⟩ := allows_of_accepted managedSet unexpanded accepted entry member
  refine below_of_allows documented covers (faithful allowed (List.mem_append_left _ allows))
    (faithful entry (List.mem_append_right _ member)) (literal entry member).1
    (literal entry member).2 fun glob expanded => ?_
  exact List.mem_flatMap.mpr ⟨allowed, allows, expanded⟩

/-- A configuration that is accepted stays within the managed allowlist where each of its globs is a
managed one or below a managed wildcard, and for plain entries only there.  Entries that the check
sees as their globs do are of this kind. -/
theorem allowlist_boundedBy_iff (documented : Documented crates)
    (managedSet : constraints.allowedDomains = some managed)
    (unexpanded : constraints.allowlistExpansionEnabled = none)
    (accepted : validatePolicyAgainstConstraints crates config constraints = .ok ())
    (managedCompiled : compileAllowlistGlobset crates managed = .ok managedGlobs)
    (compiled : compileAllowlistGlobset crates (configAllowedDomains config) = .ok globs) :
    (EntriesBelow crates managed (configAllowedDomains config) →
        BoundedBy crates managedGlobs globs) ∧
      ((∀ entry ∈ managed ++ configAllowedDomains config, Plain (globPattern entry).domain) →
        (BoundedBy crates managedGlobs globs ↔
          EntriesBelow crates managed (configAllowedDomains config))) ∧
      ((∀ entry ∈ managed ++ configAllowedDomains config, Faithful crates entry) →
        (∀ entry ∈ configAllowedDomains config, Literal (globPattern entry).domain ∧
          (globPattern entry).domain.head? ≠ some '.') →
        EntriesBelow crates managed (configAllowedDomains config)) := by
  have enough := boundedBy_of_entriesBelow documented managedCompiled compiled
  refine ⟨enough, fun plain => ⟨?_, enough⟩, ?_⟩
  · exact entriesBelow_of_boundedBy documented managedCompiled compiled plain
  · exact entriesBelow_of_faithful documented managedSet unexpanded accepted

end Allowlist

section Addresses

/-- Hosts are allowed below a managed domain. -/
def domainConfig : NetworkProxyConfig :=
  ⟨{ NetworkProxySettings.default with
    domains := some [⟨['a', '.', 'b', '.'], .allow⟩, ⟨['*', '.', 'a', '.', 'b'], .allow⟩] }⟩

def domainConstraints : NetworkProxyConstraints :=
  { NetworkProxyConstraints.default with allowedDomains := some [['*', '*', '.', 'b']] }

theorem domainConfig_boundedBy :
    validatePolicyAgainstConstraints Crates.wildcards domainConfig domainConstraints = .ok () ∧
      BoundedBy Crates.wildcards [['b'], ['?', '*', '.', 'b']]
        [['a', '.', 'b'], ['?', '*', '.', 'a', '.', 'b']] := by
  have accepted :
      validatePolicyAgainstConstraints Crates.wildcards domainConfig domainConstraints =
        .ok () := rfl
  obtain ⟨enough, _, faithful⟩ :=
    allowlist_boundedBy_iff documented_wildcards rfl rfl accepted rfl rfl
  exact ⟨accepted, enough (faithful (by decide) (by decide))⟩

/-- One address is managed, and another one is allowed. -/
def addressConfig : NetworkProxyConfig :=
  ⟨{ NetworkProxySettings.default with domains := some [⟨"[2001:db8::1]".toList, .allow⟩] }⟩

def addressConstraints : NetworkProxyConstraints :=
  { NetworkProxyConstraints.default with allowedDomains := some ["[::1]".toList] }

/-- Both addresses are no URL hosts without their brackets, so the check takes them for the same. -/
theorem not_boundedBy_of_address :
    ¬∀ crates : Crates, Documented crates → ∀ config constraints managed managedGlobs globs,
      constraints.allowedDomains = some managed → constraints.allowlistExpansionEnabled = none →
      validatePolicyAgainstConstraints crates config constraints = .ok () →
      compileAllowlistGlobset crates managed = .ok managedGlobs →
      compileAllowlistGlobset crates (configAllowedDomains config) = .ok globs →
        BoundedBy crates managedGlobs globs := by
  intro always
  have bounded := always _ documented_wildcards addressConfig addressConstraints _ _ _
    rfl rfl rfl rfl
    rfl
  have escaped := bounded "2001:db8::1".toList
  revert escaped
  decide

end Addresses

end CodexPilot.NetworkProxy
