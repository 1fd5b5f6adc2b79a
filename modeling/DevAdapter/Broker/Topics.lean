import DevAdapter.Lib.Mqtt

/-!
# Topics of requests and responses

The topics that `dev_transfer` and `init_broker` write into arrays of 256
bytes. A request of `src` to `dst` and the response to it carry the sequence
number of the request as their last level.
-/

namespace DevAdapter.Broker

/-- What `snprintf` with size 256 leaves of a text. -/
def snprintf256 (text : List Char) : List Char := text.take 255

def ackRequest : List Char :=
  ['/', 'a', 'c', 'k', '/', 'r', 'e', 'q', 'u', 'e', 's', 't', '/']

def ackRespond : List Char :=
  ['/', 'a', 'c', 'k', '/', 'r', 'e', 's', 'p', 'o', 'n', 'd', '/']

/-- `%d` of an `unsigned char`. -/
def decimal (seq : UInt8) : List Char := Nat.toDigits 10 seq.toNat

def requestTopic (src dst : List Char) (seq : UInt8) : List Char :=
  snprintf256 (src ++ '/' :: dst ++ ackRequest ++ decimal seq)

def respondTopicAck (dst src seq : List Char) : List Char :=
  snprintf256 (dst ++ '/' :: src ++ ackRespond ++ seq)

/-- `RESPOND_TOPIC`, the filter that `init_broker` subscribes to. -/
def respondTopic (src : List Char) : List Char :=
  snprintf256 ('+' :: '/' :: src ++ ackRespond ++ ['+'])

end DevAdapter.Broker
