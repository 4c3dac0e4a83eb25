/-
  ArtifactCourier.Defaults
  ──────────────────────────────────────
  **The fixed values of the courier.**

  What applies when neither the configuration file nor the command line says
  otherwise, the attributes that every object carries, the endings of the derived
  artifacts, and the sizes that decide how a file travels.
-/

namespace ArtifactCourier.Defaults

/-! ## §1. Configuration. -/

/-- The bucket that artifacts go to. -/
def bucket : String := "zk-p2p"

/-- Name prefixes of the files that are also published compressed. -/
def tarPrefixes : List String :=
  ["venmo_send.zkey", "venmo_registration.zkey", "hdfc_send.zkey", "hdfc_registration.zkey"]

/-- Name prefixes of the files that are published as they are. -/
def plainPrefixes : List String :=
  ["venmo_send.wasm", "venmo_registration.wasm", "venmo_send_vkey.json",
   "venmo_registration_vkey.json", "hdfc_send.wasm", "hdfc_registration.wasm",
   "hdfc_send_vkey.json", "hdfc_registration_vkey.json"]

/-- Where `init-config` writes when no path is given. -/
def configFile : String := "uploader.yaml"

/-! ## §2. Objects and artifacts. -/

def objectAcl : String := "public-read"

def objectContentType : String := "binary/octet-stream"

def gzipExtension : String := ".gz"

def tarGzExtension : String := ".tar.gz"

/-- How the names of scratch directories begin. -/
def scratchDirPrefix : String := ".artifact-uploader-"

/-! ## §3. Sizes. -/

/-- The size of every part of a multipart upload but the last: 8 MiB. -/
def partSize : Nat := 8 * 1024 * 1024

/-- Files above this size (50 MiB) are sent in parts. -/
def largeFileThreshold : Nat := 50 * 1024 * 1024

/-- The buffer through which a request body is streamed: 64 KiB. -/
def streamingBufferSize : Nat := 64 * 1024

end ArtifactCourier.Defaults
