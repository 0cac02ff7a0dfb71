/-!
# The scripts of the coordination server

What the server runs for each operation of the remote guards. A script is sent as a call that names
it; only a server that does not know it is sent the text.
-/

namespace Turnstile.Remote

inductive Script
  /-- One try for a lock: granted to a caller at the head of the queue once the lock is free. -/
  | acquire
  /-- Leaves the queue, and the lock if it was granted meanwhile. -/
  | abandon
  /-- Frees a lock that the caller holds. -/
  | release
  /-- Extends the lease of a lock that the caller holds. -/
  | renew
  /-- Takes a token, or tells the milliseconds until there is one. -/
  | takeToken
  /-- Takes permits of a pool: 1 if taken, 0 if short, -1 if the pool can never hold so many. -/
  | takePermits
  /-- Gives permits back to a pool. -/
  | givePermits
deriving DecidableEq

namespace Script

/-- The name of the operation in records. -/
def name : Script → String
  | acquire => "acquire"
  | abandon => "abandon"
  | release => "release"
  | renew => "renew"
  | takeToken => "take"
  | takePermits => "sem_acquire"
  | givePermits => "sem_release"

def acquireText : String := "
local t = redis.call('TIME')
local now = tonumber(t[1]) * 1000 + math.floor(tonumber(t[2]) / 1000)
while true do
  local head = redis.call('LINDEX', KEYS[2], 0)
  if not head then break end
  local deadline = redis.call('ZSCORE', KEYS[3], head)
  if deadline and tonumber(deadline) >= now then break end
  redis.call('LPOP', KEYS[2])
  redis.call('ZREM', KEYS[3], head)
end
local holder = redis.call('GET', KEYS[1])
if holder == ARGV[1] then
  return 1
end
local head = redis.call('LINDEX', KEYS[2], 0)
if (not holder) and ((not head) or head == ARGV[1]) then
  if head == ARGV[1] then
    redis.call('LPOP', KEYS[2])
  end
  redis.call('ZREM', KEYS[3], ARGV[1])
  redis.call('SET', KEYS[1], ARGV[1], 'PX', ARGV[2])
  return 1
end
if not redis.call('ZSCORE', KEYS[3], ARGV[1]) then
  redis.call('RPUSH', KEYS[2], ARGV[1])
end
redis.call('ZADD', KEYS[3], now + tonumber(ARGV[3]), ARGV[1])
redis.call('PEXPIRE', KEYS[2], tonumber(ARGV[2]) + tonumber(ARGV[3]))
redis.call('PEXPIRE', KEYS[3], tonumber(ARGV[2]) + tonumber(ARGV[3]))
return 0
"

def abandonText : String := "
redis.call('LREM', KEYS[2], 0, ARGV[1])
redis.call('ZREM', KEYS[3], ARGV[1])
if redis.call('GET', KEYS[1]) == ARGV[1] then
  redis.call('DEL', KEYS[1])
end
return 1
"

def releaseText : String := "
if redis.call('GET', KEYS[1]) == ARGV[1] then
  return redis.call('DEL', KEYS[1])
end
return 0
"

def renewText : String := "
if redis.call('GET', KEYS[1]) == ARGV[1] then
  return redis.call('PEXPIRE', KEYS[1], ARGV[2])
end
return 0
"

def takeTokenText : String := "
local t = redis.call('TIME')
local now = tonumber(t[1]) * 1000 + math.floor(tonumber(t[2]) / 1000)
local capacity = tonumber(ARGV[1])
local interval = tonumber(ARGV[2])
local state = redis.call('HMGET', KEYS[1], 'tokens', 'ts')
local tokens = tonumber(state[1])
local ts = tonumber(state[2])
if tokens == nil or ts == nil then
  tokens = capacity
  ts = now
end
local elapsed = math.max(0, now - ts)
tokens = math.min(capacity, tokens + elapsed * capacity / interval)
local wait = 0
if tokens >= 1 then
  tokens = tokens - 1
else
  wait = math.max(1, math.ceil((1 - tokens) * interval / capacity))
end
redis.call('HSET', KEYS[1], 'tokens', tostring(tokens), 'ts', now)
redis.call('PEXPIRE', KEYS[1], ARGV[3])
return wait
"

def takePermitsText : String := "
local capacity = tonumber(ARGV[1])
local permits = tonumber(ARGV[2])
local available
if redis.call('EXISTS', KEYS[1]) == 0 then
  available = capacity
else
  local old = tonumber(redis.call('HGET', KEYS[1], 'capacity'))
  available = tonumber(redis.call('HGET', KEYS[1], 'available'))
  available = math.max(0, math.min(capacity, available + capacity - old))
end
redis.call('HSET', KEYS[1], 'capacity', capacity, 'available', available)
redis.call('PEXPIRE', KEYS[1], ARGV[3])
if permits > capacity then
  return -1
end
if available >= permits then
  redis.call('HSET', KEYS[1], 'available', available - permits)
  return 1
end
return 0
"

def givePermitsText : String := "
if redis.call('EXISTS', KEYS[1]) == 0 then
  return 0
end
local capacity = tonumber(redis.call('HGET', KEYS[1], 'capacity'))
local available = tonumber(redis.call('HGET', KEYS[1], 'available'))
redis.call('HSET', KEYS[1], 'available', math.min(capacity, available + tonumber(ARGV[1])))
redis.call('PEXPIRE', KEYS[1], ARGV[2])
return 1
"

/-- The text that the server runs. -/
def source : Script → String
  | acquire => acquireText
  | abandon => abandonText
  | release => releaseText
  | renew => renewText
  | takeToken => takeTokenText
  | takePermits => takePermitsText
  | givePermits => givePermitsText

end Script

end Turnstile.Remote
