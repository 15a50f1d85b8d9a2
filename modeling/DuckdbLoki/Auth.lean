import DuckdbLoki.Base

namespace DuckdbLoki

structure AuthConfig where
  token : Str
  username : Str
  password : Str
  tenant : Str
  extraHeaders : List (Str × Str)
deriving DecidableEq

def base64Alphabet : Str :=
  "ABCDEFGHIJKLMNOPQRSTUVWXYZabcdefghijklmnopqrstuvwxyz0123456789+/".toList

def base64Char (n : ℕ) : Char := base64Alphabet.getD (n % 64) '='

def byteOf (c : Char) : ℕ := c.toNat % 256

def base64Encode : Str → Str
  | a :: b :: c :: s =>
    let triple := byteOf a * 65536 + byteOf b * 256 + byteOf c
    base64Char (triple / 262144) :: base64Char (triple / 4096) :: base64Char (triple / 64) ::
      base64Char triple :: base64Encode s
  | [a] =>
    let triple := byteOf a * 65536
    [base64Char (triple / 262144), base64Char (triple / 4096), '=', '=']
  | [a, b] =>
    let triple := byteOf a * 65536 + byteOf b * 256
    [base64Char (triple / 262144), base64Char (triple / 4096), base64Char (triple / 64), '=']
  | [] => []

def buildAuthHeaders (config : AuthConfig) : List (Str × Str) :=
  (if config.token ≠ [] then [("Authorization".toList, "Bearer ".toList ++ config.token)]
    else if config.username ≠ [] ∨ config.password ≠ [] then
      [("Authorization".toList,
        "Basic ".toList ++ base64Encode (config.username ++ ':' :: config.password))]
    else []) ++
  (if config.tenant ≠ [] then [("X-Scope-OrgID".toList, config.tenant)] else []) ++
  config.extraHeaders

end DuckdbLoki
