import HabrDigest.Lib.Separator
import HabrDigest.Messaging.AmqpConfig

/-!
# The address of the broker

`BuildAmqpAddress` joins the user, the password, the host, the port and the vhost into one string,
and `AMQP::Address` takes that string apart again.  Nothing is escaped on the way and nothing is
decoded, so the fields come back only if the separators that the library looks for are the ones
that were put there.

The library is a parameter (`AddressReader`).  What is known of it is where it cuts: the login is
everything before the first `@`, and it is cut at its first `:`; behind the login, the vhost
begins at the first `/`, and the host ends at the first `:`.

`address_roundTrip_iff` is the result.  A user without `:` and `@` and a password without `@` come
back, whatever the vhost is, and no two such configurations share an address unless they say the
same.  Any other user and password are read as different ones.
-/

namespace HabrDigest
namespace Messaging

open Common
open Separator

theorem slash_notMem_digits (n : ℕ) : 0x2F ∉ Numeral.digits n := fun hmem =>
  absurd (Numeral.isDigit_of_mem_digits hmem) (by decide)

/-- `AMQP::Address`, taken apart. -/
@[ext]
structure Address where
  user : Bytes
  password : Bytes
  host : Bytes
  port : UInt16
  vhost : Bytes
  deriving DecidableEq, Repr

/-- The constructor of `AMQP::Address`, and where it cuts. -/
structure AddressReader where
  read : Bytes → Address
  /-- The login is what is before the first `@`, and the user what is before its first `:`. -/
  user_read : ∀ login location, 0x40 ∉ login →
    (read (utf8 "amqp://" ++ (login ++ 0x40 :: location))).user = before 0x3A login
  /-- The password is what is behind that `:`. -/
  password_read : ∀ login location, 0x40 ∉ login → 0x3A ∈ login →
    (read (utf8 "amqp://" ++ (login ++ 0x40 :: location))).password = behind 0x3A login
  /-- The host ends at a `:`, and the location at the first `/`. -/
  host_read : ∀ login location path, 0x40 ∉ login → 0x2F ∉ location →
    (read (utf8 "amqp://" ++ (login ++ 0x40 :: (location ++ 0x2F :: path)))).host =
      before 0x3A location
  /-- The port follows. -/
  port_read : ∀ login host (port : UInt16) path, 0x40 ∉ login → 0x2F ∉ host → 0x3A ∉ host →
    (read (utf8 "amqp://" ++ (login ++ 0x40 ::
      (host ++ 0x3A :: Numeral.digits port.toNat ++ 0x2F :: path)))).port = port
  /-- The vhost is the rest, as it stands. -/
  vhost_read : ∀ login location path, 0x40 ∉ login → 0x2F ∉ location →
    (read (utf8 "amqp://" ++ (login ++ 0x40 :: (location ++ 0x2F :: path)))).vhost =
      if path = [] then utf8 "/" else path

/-- A reader that cuts where the library does. -/
def readAddress (s : Bytes) : Address :=
  let s := s.drop (utf8 "amqp://").length
  let location := before 0x2F (behind 0x40 s)
  let path := behind 0x2F (behind 0x40 s)
  { user := before 0x3A (before 0x40 s)
    password := behind 0x3A (before 0x40 s)
    host := before 0x3A location
    port := UInt16.ofNat (Numeral.value (behind 0x3A location))
    vhost := if path = [] then utf8 "/" else path }

section Reference

variable {login location path : Bytes}

theorem readAddress_login (h : 0x40 ∉ login) :
    (readAddress (utf8 "amqp://" ++ (login ++ 0x40 :: location))).user = before 0x3A login ∧
    (readAddress (utf8 "amqp://" ++ (login ++ 0x40 :: location))).password =
      behind 0x3A login := by
  unfold readAddress
  dsimp only
  rw [List.drop_left, before_append h]
  exact ⟨rfl, rfl⟩

theorem readAddress_location (h : 0x40 ∉ login) (hlocation : 0x2F ∉ location) :
    readAddress (utf8 "amqp://" ++ (login ++ 0x40 :: (location ++ 0x2F :: path))) =
      { user := before 0x3A login
        password := behind 0x3A login
        host := before 0x3A location
        port := UInt16.ofNat (Numeral.value (behind 0x3A location))
        vhost := if path = [] then utf8 "/" else path } := by
  unfold readAddress
  dsimp only
  rw [List.drop_left, before_append h, behind_append h, before_append hlocation,
    behind_append hlocation]

end Reference

def AddressReader.reference : AddressReader where
  read := readAddress
  user_read _ _ h := (readAddress_login h).1
  password_read _ _ h _ := (readAddress_login h).2
  host_read _ _ _ h hlocation := by
    rw [readAddress_location h hlocation]
  port_read login host port path h hslash hcolon := by
    have hlocation : 0x2F ∉ host ++ 0x3A :: Numeral.digits port.toNat := by
      simp [hslash, slash_notMem_digits]
    rw [readAddress_location h hlocation]
    dsimp only
    rw [behind_append hcolon, Numeral.value_digits]
    exact UInt16.ofNat_toNat
  vhost_read _ _ _ h hlocation := by
    rw [readAddress_location h hlocation]

namespace AmqpConfig

/-- What a configuration says. -/
def address (config : AmqpConfig) : Address :=
  { user := config.user
    password := config.password
    host := config.host
    port := config.port
    vhost := if config.vhost = [] then utf8 "/" else config.vhost }

/-- The host has none of the separators in it. -/
def PlainHost (config : AmqpConfig) : Prop :=
  0x40 ∉ config.host ∧ 0x3A ∉ config.host ∧ 0x2F ∉ config.host

instance (config : AmqpConfig) : Decidable config.PlainHost :=
  inferInstanceAs (Decidable (_ ∧ _ ∧ _))

/-- The user has no `:` and no `@` in it, and the password no `@`. -/
def PlainLogin (config : AmqpConfig) : Prop :=
  0x3A ∉ config.user ∧ 0x40 ∉ config.user ∧ 0x40 ∉ config.password

instance (config : AmqpConfig) : Decidable config.PlainLogin :=
  inferInstanceAs (Decidable (_ ∧ _ ∧ _))

/-- The part of an address behind the `@`, up to the vhost. -/
def location (config : AmqpConfig) : Bytes :=
  config.host ++ 0x3A :: Numeral.digits config.port.toNat

/-- The vhost in an address. -/
def path (config : AmqpConfig) : Bytes :=
  if config.vhost = utf8 "/" then [] else config.vhost

theorem buildAmqpAddress_eq (config : AmqpConfig) :
    config.buildAmqpAddress = utf8 "amqp://" ++ (config.user ++ 0x3A :: (config.password ++
      0x40 :: (config.location ++ 0x2F :: config.path))) := by
  have hcolon : utf8 ":" = [0x3A] := rfl
  have hat : utf8 "@" = [0x40] := rfl
  have hslash : ∀ s : Bytes, utf8 "/" ++ s = 0x2F :: s := fun _ => rfl
  unfold buildAmqpAddress location path
  simp only [hcolon, hat, hslash, List.append_assoc, List.cons_append, List.nil_append]

/-- The port is no part of the host, and the vhost none of the port. -/
theorem slash_notMem_location {config : AmqpConfig} (h : config.PlainHost) :
    0x2F ∉ config.location := by
  unfold location
  simp [h.2.2, slash_notMem_digits]

/-- The vhost `/` is left out, and read where nothing follows. -/
theorem vhost_path (config : AmqpConfig) :
    (if config.path = [] then utf8 "/" else config.path) = config.address.vhost := by
  unfold path address
  dsimp only
  split <;> simp_all

/-- **A plain login comes back**, and everything behind it. -/
theorem read_buildAmqpAddress (a : AddressReader) {config : AmqpConfig}
    (hhost : config.PlainHost) (hlogin : config.PlainLogin) :
    a.read config.buildAmqpAddress = config.address := by
  obtain ⟨huser, hat, hpassword⟩ := hlogin
  have hslash := slash_notMem_location hhost
  have hfree : 0x40 ∉ config.user ++ 0x3A :: config.password := by
    simp [hat, hpassword]
  have haddress : config.buildAmqpAddress =
      utf8 "amqp://" ++ ((config.user ++ 0x3A :: config.password) ++
        0x40 :: (config.location ++ 0x2F :: config.path)) := by
    rw [buildAmqpAddress_eq, List.append_assoc, List.cons_append]
  have huserRead := a.user_read _ (config.location ++ 0x2F :: config.path) hfree
  have hpasswordRead := a.password_read _ (config.location ++ 0x2F :: config.path) hfree (by simp)
  have hhostRead := a.host_read _ _ config.path hfree hslash
  have hportRead := a.port_read _ _ config.port config.path hfree hhost.2.2 hhost.2.1
  have hvhostRead := a.vhost_read _ _ config.path hfree hslash
  rw [haddress]
  refine Address.ext ?_ ?_ ?_ hportRead ?_
  · rw [huserRead, before_append huser]
    rfl
  · rw [hpasswordRead, behind_append huser]
    rfl
  · exact hhostRead.trans (before_append hhost.2.1 _)
  · rw [hvhostRead, vhost_path]

/-- A login that comes back is plain: no piece that is read has in it what it was cut at. -/
theorem plainLogin_of_read (a : AddressReader) {config : AmqpConfig}
    (h : a.read config.buildAmqpAddress = config.address) : config.PlainLogin := by
  obtain ⟨rest, hrest⟩ : ∃ rest, config.buildAmqpAddress =
      utf8 "amqp://" ++ (config.user ++ 0x3A :: (config.password ++ 0x40 :: rest)) :=
    ⟨_, buildAmqpAddress_eq config⟩
  let s : Bytes := config.user ++ 0x3A :: (config.password ++ 0x40 :: rest)
  have hcut : before 0x40 s ++ 0x40 :: behind 0x40 s = s := before_append_behind (by simp [s])
  have hlogin := notMem_before 0x40 s
  have hread : a.read (utf8 "amqp://" ++ (before 0x40 s ++ 0x40 :: behind 0x40 s)) =
      config.address := by
    rw [hcut, ← h, hrest]
  have huser : config.user = before 0x3A (before 0x40 s) := by
    rw [← a.user_read _ (behind 0x40 s) hlogin, hread]
    rfl
  have hcolon : 0x3A ∉ config.user := by
    rw [huser]
    exact notMem_before _ _
  have hat : 0x40 ∉ config.user := by
    rw [huser]
    exact fun hmem => hlogin (before_subset _ _ hmem)
  have hbefore : before 0x40 s =
      config.user ++ 0x3A :: before 0x40 (config.password ++ 0x40 :: rest) := by
    rw [before_append_of_notMem hat, before_cons_of_ne (by decide)]
  have hpassword : config.password = before 0x40 (config.password ++ 0x40 :: rest) := by
    have hpasswordRead := a.password_read _ (behind 0x40 s) hlogin (by simp [hbefore])
    rw [hread, hbefore, behind_append hcolon] at hpasswordRead
    exact hpasswordRead
  refine ⟨hcolon, hat, ?_⟩
  rw [hpassword]
  exact notMem_before _ _

/-- **The address of a configuration is read as it was meant just when its login is plain**, and
configurations with plain logins share an address only if they say the same. -/
theorem address_roundTrip_iff (a : AddressReader) {env : Env}
    (hhost : (loadAmqpConfigFromEnv env).PlainHost) :
    (a.read (loadAmqpConfigFromEnv env).buildAmqpAddress = (loadAmqpConfigFromEnv env).address ↔
      (loadAmqpConfigFromEnv env).PlainLogin) ∧
    ∀ env', (loadAmqpConfigFromEnv env').PlainHost →
      (loadAmqpConfigFromEnv env).PlainLogin → (loadAmqpConfigFromEnv env').PlainLogin →
      (loadAmqpConfigFromEnv env).buildAmqpAddress =
        (loadAmqpConfigFromEnv env').buildAmqpAddress →
      (loadAmqpConfigFromEnv env).address = (loadAmqpConfigFromEnv env').address := by
  refine ⟨⟨plainLogin_of_read a, read_buildAmqpAddress a hhost⟩, ?_⟩
  intro env' hhost' hlogin hlogin' hsame
  calc (loadAmqpConfigFromEnv env).address
      = a.read (loadAmqpConfigFromEnv env).buildAmqpAddress :=
        (read_buildAmqpAddress a hhost hlogin).symm
    _ = a.read (loadAmqpConfigFromEnv env').buildAmqpAddress := by rw [hsame]
    _ = (loadAmqpConfigFromEnv env').address := read_buildAmqpAddress a hhost' hlogin'

/-- An environment with a user and a password. -/
def credentials (user password : Bytes) : Env := fun name =>
  if name = utf8 "RABBITMQ_USER" then some user
  else if name = utf8 "RABBITMQ_PASSWORD" then some password
  else none

theorem address_roundTrip_colon :
    AddressReader.reference.read
        (loadAmqpConfigFromEnv (credentials (utf8 "habr") (utf8 "a:b/c"))).buildAmqpAddress =
      (loadAmqpConfigFromEnv (credentials (utf8 "habr") (utf8 "a:b/c"))).address :=
  (address_roundTrip_iff .reference (by decide +kernel)).1.mpr (by decide +kernel)

/-- A password with an `@` is cut there, and what follows it is read as a host.  A user with a `:`
shares its address with another one. -/
theorem address_confused :
    AddressReader.reference.read
        (loadAmqpConfigFromEnv (credentials (utf8 "habr") (utf8 "p@ss"))).buildAmqpAddress =
      { user := utf8 "habr"
        password := utf8 "p"
        host := utf8 "ss@localhost"
        port := 5672
        vhost := utf8 "/" } ∧
    (loadAmqpConfigFromEnv (credentials (utf8 "habr") (utf8 "p@ss"))).PlainHost ∧
    AddressReader.reference.read
        (loadAmqpConfigFromEnv (credentials (utf8 "habr") (utf8 "p@ss"))).buildAmqpAddress ≠
      (loadAmqpConfigFromEnv (credentials (utf8 "habr") (utf8 "p@ss"))).address ∧
    (loadAmqpConfigFromEnv (credentials (utf8 "a:b") (utf8 "c"))).buildAmqpAddress =
      (loadAmqpConfigFromEnv (credentials (utf8 "a") (utf8 "b:c"))).buildAmqpAddress ∧
    (loadAmqpConfigFromEnv (credentials (utf8 "a:b") (utf8 "c"))).address ≠
      (loadAmqpConfigFromEnv (credentials (utf8 "a") (utf8 "b:c"))).address := by
  decide +kernel

end AmqpConfig

end Messaging
end HabrDigest
